import SceneScript.Proofs.Command.Trees
import SceneScript.Proofs.Json.Documents

/-!
Scene dumps: behind what a program prints, the command writes the recorded scene as a document. It
is a JSON document if and only if all numbers of the scene are finite.
-/

namespace SceneScript

section Scenes

def SceneObject.numbers (o : SceneObject) : List Float := o.dimensions.toList ++ o.position.toList

/-- No number of the scene is an infinity or no number at all. -/
def Scene.AllFinite (s : Scene) : Prop :=
  ∀ o ∈ s.objects, ∀ x ∈ o.numbers, (Binary64.ofFloat x).IsFinite

namespace Json

/-- The field of a value. -/
def at? (j : Json) (key : String) : Option Json :=
  match j with
  | .object fields => field? fields key
  | _ => none

/-- The value is a list of the numbers, bit for bit. -/
def ShowsNumbers (j : Json) (t : Triple) : Prop :=
  j = .array [.float (.ofFloat t.x), .float (.ofFloat t.y), .float (.ofFloat t.z)]

structure ShowsObject (j : Json) (o : SceneObject) : Prop where
  kind : j.at? "kind" = some (.string o.shape.label)
  dimensions : ∃ part, j.at? "dimensions" = some part ∧ part.ShowsNumbers o.dimensions
  position : ∃ part, j.at? "position" = some part ∧ part.ShowsNumbers o.position
  color : j.at? "color" = some (.string o.color)

/-- The value has the background of the scene and its objects, in the same order. -/
structure ShowsScene (j : Json) (s : Scene) : Prop where
  background : j.at? "background" = some (match s.background with
    | some color => .string color
    | none => .null)
  objects : ∃ items, j.at? "objects" = some (.array items) ∧
    List.Forall₂ ShowsObject items s.objects

end Json

namespace Command.CommandM

theorem showsScene_sceneJson (s : Scene) : (sceneJson s).ShowsScene s := by
  refine ⟨?_, s.objects.map objectJson, rfl, ?_⟩
  · obtain ⟨background, objects⟩ := s
    cases background <;> rfl
  · rw [List.forall₂_map_left_iff, List.forall₂_same]
    exact fun o _ => ⟨rfl, ⟨_, rfl, rfl⟩, ⟨_, rfl, rfl⟩, rfl⟩

theorem each_objectJson_iff {P : Binary64 → Prop} {o : SceneObject} :
    (objectJson o).Each P ↔ ∀ x ∈ o.numbers, P (.ofFloat x) := by
  simp [objectJson, tripleJson, SceneObject.numbers, Triple.toList, Json.Each, Json.EachItem,
    Json.EachField, and_assoc]

theorem each_sceneJson_iff {P : Binary64 → Prop} {s : Scene} :
    (sceneJson s).Each P ↔ ∀ o ∈ s.objects, ∀ x ∈ o.numbers, P (.ofFloat x) := by
  have items (objects : List SceneObject) : Json.EachItem P (objects.map objectJson) ↔
      ∀ o ∈ objects, ∀ x ∈ o.numbers, P (.ofFloat x) := by
    induction objects with
    | nil => simp [Json.EachItem]
    | cons o objects ih =>
      rw [List.map_cons, Json.EachItem, ih, each_objectJson_iff, List.forall_mem_cons]
  have background : ((s.background.map Json.string).getD .null).Each P := by
    cases s.background <;> exact trivial
  simp only [sceneJson, Json.Each, Json.EachField, background, items, true_and, and_true]

theorem writable_ofFloat {loose : Bool} {x : Float}
    (allowed : loose = true ∨ (Binary64.ofFloat x).IsFinite) :
    Json.Writable loose (.ofFloat x) := by
  cases bits : Binary64.ofFloat x with
  | finite negative mantissa exponent => exact Binary64.canonical_of_ofBits bits
  | nan | infinite =>
    rw [bits] at allowed
    exact allowed.resolve_right id

open Json.Grammar

/-- The text of a scene is a document of it, and a JSON document if one can be. -/
theorem documents_of_scene (s : Scene) :
    (s.AllFinite → Document false ((sceneJson s).pretty true) (sceneJson s)) ∧
    (¬ s.AllFinite → Document true ((sceneJson s).pretty true) (sceneJson s) ∧
      ∀ j, ¬ Document false ((sceneJson s).pretty true) j) := by
  have loose : (sceneJson s).Each (Json.Writable true) :=
    each_sceneJson_iff.mpr fun o _ x _ => writable_ofFloat (.inl rfl)
  refine ⟨fun finite => ?_, fun infinite => ⟨Json.document_pretty true loose, fun j strict => ?_⟩⟩
  · exact Json.document_pretty true (each_sceneJson_iff.mpr
      fun o among x member => writable_ofFloat (.inr (finite o among x member)))
  · exact infinite (each_sceneJson_iff.mp (Json.each_of_document_pretty true loose strict))

end Command.CommandM

end Scenes

/-- Against a recorded scene the program runs to its end, which is in the state `m`. -/
def Program.Completes (p : Program) (m : Machine) : Prop :=
  let (context, start) := Machine.initial.programContext Builtin.scene
  (EvalM.runProgram (SceneHost.recording .none) context p).run start = .ok () m

namespace Command

namespace CommandM

/-- The program that the settings name. -/
def named (s : Settings) : CommandM Program :=
  let frontEnd : FrontEnd := if s.grammar then .grammar else .precedence
  match given s.runTree with
  | some path => loadFile path
  | none =>
    match given s.program with
    | some path => parseFile frontEnd path
    | none => usageError .missingProgram

/-- Reads the program. With a log, the log file is emptied before. -/
def source (s : Settings) : CommandM Program := do
  if s.verbosity ≠ 0 then write logPath ""
  named s

theorem perform_eq {s : Settings} (runs : given s.emitTree = none) :
    perform s = named s >>= execute s.dumpScene := by
  unfold perform named
  rw [runs]
  cases given s.runTree with
  | some path => rfl
  | none =>
    cases given s.program with
    | some path => rfl
    | none => rfl

/-- The computation prints nothing as long as it goes on, and where it stops it has failed. -/
def Quiet {α : Type} (m : CommandM α) : Prop :=
  ∀ p, match m.run p with
    | .ok _ p' => p'.output = p.output
    | .error stop _ => stop ≠ .exit 0

section Quiet

variable {α β : Type}

theorem quiet_pure (a : α) : Quiet (pure a) := fun _ => rfl

theorem quiet_get : Quiet (get : CommandM Progress) := fun _ => rfl

theorem quiet_modify {f : Progress → Progress} (same : ∀ p, (f p).output = p.output) :
    Quiet (modify f) := same

theorem quiet_throw {stop : Stop} (failed : stop ≠ .exit 0) : Quiet (throw stop : CommandM α) :=
  fun _ => failed

theorem Quiet.bind {m : CommandM α} {f : α → CommandM β} (first : m.Quiet)
    (further : ∀ a, (f a).Quiet) : (m >>= f).Quiet := by
  intro p
  have own := first p
  cases ran : m.run p with
  | ok a p' =>
    rw [ran] at own
    have next := further a p'
    rw [run_bind_of_ok ran]
    rw [own] at next
    exact next
  | error stop p' =>
    rw [ran] at own
    rw [run_bind_of_error ran]
    exact own

theorem quiet_printError (text : String) : Quiet (printError text) := quiet_modify fun _ => rfl

theorem quiet_usageError (f : UsageFault) : Quiet (usageError f : CommandM α) :=
  (quiet_printError _).bind fun _ => quiet_throw (by simp)

theorem quiet_report (r : Report) : Quiet (report r : CommandM α) := by
  unfold report
  split
  · exact (quiet_printError _).bind fun _ => quiet_throw (by simp)
  · exact quiet_throw (by simp)

theorem quiet_read (path : Path) : Quiet (read path) := by
  refine quiet_get.bind fun p => ?_
  split
  · exact (quiet_printError _).bind fun _ => quiet_throw (by simp)
  · exact quiet_throw (by simp)
  · exact quiet_throw (by simp)
  · exact quiet_throw (by simp)
  · exact quiet_pure _

theorem quiet_write (path : Path) (text : String) : Quiet (write path text) := by
  refine quiet_get.bind fun p => ?_
  split
  · exact quiet_throw (by simp)
  · exact quiet_throw (by simp)
  · exact quiet_modify fun _ => rfl

theorem quiet_parseFile (frontEnd : FrontEnd) (path : Path) : Quiet (parseFile frontEnd path) := by
  refine (quiet_read path).bind fun text => ?_
  split
  · exact quiet_report _
  · split
    · refine Quiet.bind (quiet_modify ?_) fun _ => quiet_pure _
      exact fun _ => rfl
    · exact quiet_pure _

theorem quiet_loadFile (path : Path) : Quiet (loadFile path) := by
  refine (quiet_read path).bind fun text => ?_
  split
  · exact quiet_throw (by simp)
  · split
    · exact quiet_throw (by simp)
    · exact quiet_pure _

theorem quiet_named (s : Settings) : Quiet (named s) := by
  unfold named
  dsimp only
  split
  · exact quiet_loadFile _
  · split
    · exact quiet_parseFile _ _
    · exact quiet_usageError _

theorem quiet_source (s : Settings) : Quiet (source s) := by
  unfold source
  dsimp only
  split
  · exact (quiet_write _ _).bind fun _ => quiet_named s
  · exact quiet_named s

end Quiet

section Execution

variable {p : Progress}

theorem run_report {α : Type} (r : Report) :
    ∃ stop p', (report r : CommandM α).run p = .error stop p' ∧ stop ≠ .exit 0 := by
  unfold report
  cases r.message with
  | ok message => exact ⟨.exit 1, _, rfl, by simp⟩
  | error cause => exact ⟨.crash (.unreadable cause), _, rfl, by simp⟩

/-- A program is run to its end, or the command fails. -/
theorem run_runProgram (program : Program) :
    (∃ m p', program.Completes m ∧ (runProgram program).run p = .ok m.scene p' ∧
      p'.output = p.output ++ m.output) ∨
    ∃ stop p', (runProgram program).run p = .error stop p' ∧ stop ≠ .exit 0 := by
  unfold runProgram Program.Completes
  dsimp only
  split
  · rename_i m ran
    exact .inl ⟨m, _, ran, rfl, rfl⟩
  · rename_i failure m ran
    right
    cases failure with
    | runtime fault => exact run_report (p := ⟨p.files, p.output ++ m.output, p.errors, _⟩) fault.report
    | missingValue => exact ⟨_, _, rfl, by simp⟩
    | _ => exact ⟨_, _, rfl, by simp⟩

end Execution

end CommandM

open Json.Grammar CommandM

/-- What is left of a run once the program is read. -/
theorem run_eq_outcome (files : Files) {arguments : List String} {s : Settings}
    (read : Settings.ofArguments arguments = .ok s) (runs : given s.emitTree = none) :
    (run files arguments).stop = (outcome (source s >>= execute s.dumpScene) files).1 ∧
      (run files arguments).output =
        (outcome (source s >>= execute s.dumpScene) files).2.output := by
  rw [run, read, source]
  dsimp only
  split
  · rename_i quiet
    rw [if_neg (not_not_intro quiet), perform_eq runs]
    exact ⟨rfl, rfl⟩
  · rw [runLogged, perform_eq runs, bind_assoc]
    exact ⟨rfl, rfl⟩

/-- Whenever the command is to dump the scene of a program and succeeds, the program ran to its end,
    and behind the output of the program stands the text of a document that shows the background and
    the objects recorded. If all numbers of the scene are finite it is a JSON document; otherwise it
    has words that no JSON document has. -/
theorem scene_dump_shows_scene (files : Files) (arguments : List String) (s : Settings)
    (read : Settings.ofArguments arguments = .ok s) (runs : given s.emitTree = none)
    (dumps : s.dumpScene = true) (ended : (run files arguments).stop = .exit 0) :
    ∃ program m text j,
      (∃ p, (source s).run ⟨files, "", "", []⟩ = .ok program p) ∧ program.Completes m ∧
      (run files arguments).output = m.output ++ (text ++ "\n") ∧ j.ShowsScene m.scene ∧
      (m.scene.AllFinite → Document false text j) ∧
      (¬ m.scene.AllFinite → Document true text j ∧ ∀ j', ¬ Document false text j') := by
  obtain ⟨stop, output⟩ := run_eq_outcome files read runs
  rw [stop, dumps] at ended
  rw [output, dumps]
  have quiet := quiet_source s ⟨files, "", "", []⟩
  unfold outcome at ended ⊢
  cases loaded : (source s).run ⟨files, "", "", []⟩ with
  | error stop p =>
    rw [loaded] at quiet
    rw [run_bind_of_error loaded] at ended
    exact absurd ended quiet
  | ok program p =>
    rw [loaded] at quiet
    rw [run_bind_of_ok loaded] at ended ⊢
    rcases run_runProgram (p := p) program with ⟨m, p', completes, ran, printed⟩ | ⟨stop, p', ran, failed⟩
    · have dumped : (execute true program).run p =
          .ok () { p' with output := p'.output ++ ((sceneJson m.scene).pretty true ++ "\n") } :=
        run_bind_of_ok ran
      rw [dumped]
      have documents := documents_of_scene m.scene
      refine ⟨program, m, (sceneJson m.scene).pretty true, sceneJson m.scene, ⟨p, rfl⟩, completes, ?_,
        showsScene_sceneJson m.scene, documents.1, documents.2⟩
      show p'.output ++ _ = _
      rw [printed, quiet, String.empty_append]
    · have dumped : (execute true program).run p = .error stop p' := run_bind_of_error ran
      rw [dumped] at ended
      exact absurd ended failed

/-- Ten to the 41st, and in the block its eighth power, which is an infinity. -/
def oversized : Files :=
  ⟨[(["tower"], some ("let a = 100000000000000000000000000000000000000000; let b = a * a * a * a; " ++
    "block([b * b, 1, 1], [0, 0, 0], 'red');"))], []⟩

/-- The program in the file runs to its end and leaves a state with the property. -/
def leaves (files : Files) (s : Settings) (P : Machine → Bool) : Bool :=
  match (source s).run ⟨files, "", "", []⟩ with
  | .ok program _ =>
    let (context, start) := Machine.initial.programContext Builtin.scene
    match (EvalM.runProgram (SceneHost.recording .none) context program).run start with
    | .ok _ m => P m
    | .error _ _ => false
  | .error _ _ => false

theorem of_leaves {files : Files} {s : Settings} {P : Machine → Bool} {program : Program}
    {p : Progress} {m : Machine} (left : leaves files s P = true)
    (loaded : (source s).run ⟨files, "", "", []⟩ = .ok program p) (completes : program.Completes m) :
    P m = true := by
  unfold Program.Completes at completes
  unfold leaves at left
  rw [loaded] at left
  dsimp only at left completes
  rwa [completes] at left

theorem oversized_scene_is_no_json : ∃ text,
    (run oversized ["--dump-scene", "tower"]).output = text ++ "\n" ∧
      (∃ j, Document true text j) ∧ ∀ j, ¬ Document false text j := by
  have ended : (run oversized ["--dump-scene", "tower"]).stop = .exit 0 := by
    have code : (run oversized ["--dump-scene", "tower"]).stop.code? = some 0 := by decide +kernel
    cases stop : (run oversized ["--dump-scene", "tower"]).stop with
    | exit n =>
      rw [stop] at code
      rw [Option.some.inj code]
    | crash cause =>
      rw [stop] at code
      cases code
  obtain ⟨program, m, text, j, ⟨p, loaded⟩, completes, output, -, -, infinite⟩ :=
    scene_dump_shows_scene oversized ["--dump-scene", "tower"]
      ⟨0, false, true, none, none, some "tower"⟩ rfl rfl rfl ended
  have left := of_leaves (P := fun m => m.output == "" && m.scene.objects.any fun o =>
    o.numbers.any fun x => !decide (Binary64.ofFloat x).IsFinite) (by decide +kernel) loaded completes
  rw [Bool.and_eq_true, beq_iff_eq] at left
  obtain ⟨silent, some⟩ := left
  have endless : ¬ m.scene.AllFinite := by
    intro finite
    obtain ⟨o, among, has⟩ := List.any_eq_true.mp some
    obtain ⟨x, member, other⟩ := List.any_eq_true.mp has
    simp [finite o among x member] at other
  rw [silent, String.empty_append] at output
  exact ⟨text, output, ⟨j, (infinite endless).1⟩, (infinite endless).2⟩

end Command

end SceneScript
