import SceneScript.Proofs.Eval.Requests
import SceneScript.Proofs.Eval.Steps

/-!
The scene as a history. At every point of a run it is what the scene calls that have returned have
made of the scene at the start, one after the other: the objects they placed, in the order of the
calls, in front of the background that the last of them set.
-/

namespace SceneScript

namespace SceneRequest

def object? : SceneRequest → Option SceneObject
  | .place object => some object
  | .background _ => none

def background? : SceneRequest → Option String
  | .background color => some color
  | .place _ => none

end SceneRequest

/-- No table has vanished, and the scene is as it was. -/
structure Machine.Rests (m m' : Machine) : Prop where
  tables : m.tables.size ≤ m'.tables.size
  scene : m'.scene = m.scene

theorem Machine.Rests.refl (m : Machine) : m.Rests m := ⟨Nat.le_refl _, rfl⟩

theorem Scene.objects_accept (scene : Scene) (r : SceneRequest) :
    (scene.accept r).objects = scene.objects ++ r.object?.toList := by
  cases r with
  | background color => exact (List.append_nil _).symm
  | place object => rfl

theorem Scene.background_accept (scene : Scene) (r : SceneRequest) :
    (scene.accept r).background = r.background?.or scene.background := by
  cases r <;> rfl

namespace EvalM

variable {host : SceneHost} {context : Context} {m m' : Machine}

section Calls

variable {site : Site} {b : Builtin}

theorem Performed.tables_le (performed : Performed host site m b m') :
    m.tables.size ≤ m'.tables.size := by
  cases performed with
  | idle | printed | appended | accepted | foreign => exact Nat.le_refl _
  | answered name params reply built =>
    refine Nat.le_of_not_lt fun fewer => ?_
    exact absurd (built.tables fewer).1 (Nat.lt_irrefl _)

theorem Performed.scene_eq (performed : Performed host site m b m') (other : b.sceneKind? = none) :
    m'.scene = m.scene := by
  cases performed with
  | idle | printed | appended | foreign => rfl
  | accepted known =>
    simp only [Builtin.scene, List.mem_cons, List.not_mem_nil, or_false] at known
    rcases known with rfl | rfl | rfl <;> cases other
  | answered name params reply built => exact built.aside.2.1

/-- A call makes no table vanish. It leaves the scene alone when it fails, and when it is not the
    call of a scene builtin. -/
theorem ends_execute (host : SceneHost) {callee : Ref} {args : List Ref} {content : Content}
    {stamp : Stamp} (there : m.cells[callee]? = some ⟨content, stamp⟩)
    (firm : ∀ r ∈ args, ∃ c : Cell, m.cells[r]? = some c ∧ c.content ≠ .plain) :
    (execute host callee args).Ends m
      (fun _ m' => m.tables.size ≤ m'.tables.size ∧
        ∃ b, content = .builtin b ∧ (b.sceneKind? = none → m'.scene = m.scene))
      fun _ => m.Rests := by
  unfold Ends
  by_cases called : ∃ b, content = .builtin b ∧ args.length = b.params.length
  · obtain ⟨b, rfl, count⟩ := called
    obtain ⟨m₁, bound⟩ :=
      bindArguments_eq_ok (stamp.context.call b.name stamp.span.start) b.params firm
    have size := (tables_of_bindArguments bound).1
    have scene := (aside_of_bindArguments bound).2.1
    rw [run_execute_builtin host there count bound]
    have performs := performs host
      ⟨stamp.span, stamp.context.call b.name stamp.span.start, callee⟩ b
      { m₁ with events := .called b stamp.span :: m₁.events }
    cases ran : (perform host _ b).run { m₁ with events := .called b stamp.span :: m₁.events } with
    | ok r m₂ =>
      have performed : Performed _ _ _ _ _ := Ends.of_ok performs ran
      exact ⟨size.symm.le.trans performed.tables_le, b, rfl,
        fun other => (performed.scene_eq other).trans scene⟩
    | error e m₂ =>
      obtain ⟨performed, clean⟩ := Ends.of_error performs ran
      refine ⟨size.symm.le.trans performed.tables_le, Eq.trans ?_ scene⟩
      cases foreign : b.isForeign with
      | false => exact (clean foreign).2.1
      | true =>
        refine performed.scene_eq ?_
        cases b <;> first | rfl | cases foreign
  · obtain ⟨fault, refused⟩ := run_execute_refused (host : Host) there
      fun b is count => called ⟨b, is, count⟩
    rw [refused]
    exact .refl m

end Calls

section Silent

theorem Makes.rests {x : EvalM Ref} {P : Except Failure Cell → Prop} (makes : x.Makes m P) :
    m.Rests (x.after m) := by
  obtain ⟨made, -, ran⟩ := makes
  rw [after, ran]
  cases made with
  | ok c => exact ⟨Nat.le_refl _, rfl⟩
  | error e => exact .refl m

theorem Idle.bind_rests {α : Type} {x : EvalM α} {f : α → EvalM Ref} {span : Span}
    (idle : Idle span x m) (next : ∀ a, m.Rests ((f a).after m)) : m.Rests ((x >>= f).after m) := by
  refine Ends.of_after (Ends.bind (Ends.mono idle (fun _ _ same => same) ?_) ?_)
  · rintro _ _ ⟨rfl, -⟩
    exact .refl _
  · rintro a _ rfl
    refine (ends_after (f a) _).mono ?_ ?_
    · rintro _ _ rfl
      exact next a
    · rintro _ _ rfl
      exact next a

theorem rests_apply (op : Token) {operand : Ref} (existed : operand < m.cells.size) (span : Span) :
    m.Rests ((apply context op operand span).after m) := by
  refine Ends.of_after ((ends_apply context op span existed).mono ?_ ?_)
  · rintro _ _ ⟨⟨cells, rfl⟩, -⟩
    exact ⟨Nat.le_refl _, rfl⟩
  · rintro _ _ ⟨rfl, -⟩
    exact .refl _

theorem Step.Sound.rests (host : SceneHost) {nodes : List Node} {s : Step}
    (sound : s.Sound context nodes) (silent : ∀ callee args, s.deed ≠ .call callee args) :
    s.before.Rests (s.after host context) := by
  obtain ⟨node, deed, before⟩ := s
  unfold Step.after
  dsimp only
  cases deed with
  | note e => exact ⟨Nat.le_refl _, rfl⟩
  | readName token span => exact (Makes.of_run (run_readName context token span before)).rests
  | readNumber token span =>
    exact (idle_readNumber span _).bind_rests fun _ => ⟨Nat.le_refl _, rfl⟩
  | readString token span => exact ⟨Nat.le_refl _, rfl⟩
  | combine op left right span => exact (makes_combine context op left right span before).rests
  | apply op operand span => exact rests_apply op sound.fits.1 span
  | collect elements span => exact ⟨Nat.le_refl _, rfl⟩
  | prepare callee span => exact (Makes.of_run (run_prepareCallee callee span before)).rests
  | call callee args => exact absurd rfl (silent callee args)
  | take result span => exact (Makes.of_run (run_takeResult context result span before)).rests
  | assign name value =>
    refine (idle_nameOf node.span name).bind_rests fun name => ⟨?_, rfl⟩
    show before.tables.size ≤ (before.tables.modify _ _).size
    rw [Array.size_modify]
  | conclude => exact (Makes.of_run (run_clone _ before)).rests
  | stray => exact .refl before

end Silent

namespace Step

/-- The builtin that the step calls, and the contents of its arguments. -/
def called? (s : Step) : Option (Builtin × List Content) :=
  match s.deed with
  | .call callee args =>
    match (s.before.cell callee).content with
    | .builtin b => some (b, s.before.contents args)
    | _ => none
  | _ => none

/-- Whether the step comes to its end. -/
def returns (host : Host) (context : Context) (s : Step) : Bool :=
  match (s.deed.run host context).run s.before with
  | .ok _ _ => true
  | .error _ _ => false

/-- What a scene call that returns has asked for. -/
def request? (host : Host) (context : Context) (s : Step) : Option SceneRequest :=
  if s.returns host context then s.called?.bind fun call => s.before.request? call.1 call.2
  else none

def placed? (host : Host) (context : Context) (s : Step) : Option SceneObject :=
  (s.request? host context).bind SceneRequest.object?

def painted? (host : Host) (context : Context) (s : Step) : Option String :=
  (s.request? host context).bind SceneRequest.background?

end Step

theorem Step.called?_eq_some {s : Step} {b : Builtin} {given : List Content}
    (called : s.called? = some (b, given)) : ∃ callee args, s.deed = .call callee args ∧
      (s.before.cell callee).content = .builtin b ∧ given = s.before.contents args := by
  unfold Step.called? at called
  split at called
  · rename_i callee args deed
    split at called
    · rename_i content
      cases called
      exact ⟨callee, args, deed, content, rfl⟩
    · cases called
  · cases called

theorem Step.request?_eq_some {host : Host} {s : Step} {r : SceneRequest}
    (is : s.request? host context = some r) : s.returns host context ∧
      ∃ b given, s.called? = some (b, given) ∧ s.before.request? b given = some r := by
  obtain ⟨returns, asks⟩ := Option.ite_none_right_eq_some.mp is
  obtain ⟨⟨b, given⟩, called, asks⟩ := Option.bind_eq_some_iff.mp asks
  exact ⟨returns, b, given, called, asks⟩

theorem Step.of_ends (host : Host) (context : Context) (s : Step) {P : Ref → Machine → Prop}
    {F : Failure → Machine → Prop} (ends : (s.deed.run host context).Ends s.before P F) :
    if s.returns host context then ∃ r, P r (s.after host context)
    else ∃ e, F e (s.after host context) := by
  unfold Step.returns Step.after EvalM.after
  cases ran : (s.deed.run host context).run s.before with
  | ok r m' => exact ⟨r, ends.of_ok ran⟩
  | error e m' => exact ⟨e, ends.of_error ran⟩

section Step

variable {nodes : List Node} {s : Step}

theorem Step.Sound.settles (host : SceneHost) (sound : s.Sound context nodes) {b : Builtin}
    {given : List Content} (called : s.called? = some (b, given)) (known : b.sceneKind?.isSome) :
    if s.returns host context then
      ∃ r, s.before.request? b given = some r ∧ host.objection? s.before.scene r = none ∧
        (s.after host context).scene = s.before.scene.accept r
    else (s.after host context).scene = s.before.scene := by
  obtain ⟨callee, args, deed, content, rfl⟩ := Step.called?_eq_some called
  have fits := sound.fits
  rw [deed] at fits
  obtain ⟨-, ⟨_, owner, there, -⟩, firm⟩ := fits
  rw [Machine.cell_of_getElem? there] at content
  cases content
  have ends := ends_execute_scene (host : Host) known there sound.closed firm
  have settled := Step.of_ends host context s (by rw [deed]; exact ends)
  split at settled
  · rw [if_pos ‹_›]
    exact settled.choose_spec
  · rw [if_neg ‹_›]
    exact settled.choose_spec.1

/-- A step makes no table vanish, and without calling a scene builtin it leaves the scene alone. -/
theorem Step.Sound.moves (host : SceneHost) (sound : s.Sound context nodes) :
    s.before.tables.size ≤ (s.after host context).tables.size ∧
    ((∀ b given, s.called? = some (b, given) → b.sceneKind? = none) →
      (s.after host context).scene = s.before.scene) := by
  by_cases call : ∃ callee args, s.deed = .call callee args
  · obtain ⟨callee, args, deed⟩ := call
    have fits := sound.fits
    rw [deed] at fits
    obtain ⟨-, ⟨content, owner, there, -⟩, firm⟩ := fits
    have ended := Step.of_ends host context s (by rw [deed]; exact ends_execute host there firm)
    split at ended
    · obtain ⟨_, tables, b, rfl, scene⟩ := ended
      refine ⟨tables, fun other => scene (other b (s.before.contents args) ?_)⟩
      rw [Step.called?, deed]
      dsimp only
      rw [Machine.cell_of_getElem? there]
    · obtain ⟨_, rests⟩ := ended
      exact ⟨rests.tables, fun _ => rests.scene⟩
  · have rests := sound.rests host fun callee args deed => call ⟨callee, args, deed⟩
    exact ⟨rests.tables, fun _ => rests.scene⟩

/-- A step does to the scene what it asks for, and nothing else. -/
theorem Step.Sound.scene_after (host : SceneHost) (sound : s.Sound context nodes) :
    (s.after host context).scene =
      match s.request? host context with
      | some r => s.before.scene.accept r
      | none => s.before.scene := by
  by_cases scenic : ∃ b given, s.called? = some (b, given) ∧ b.sceneKind?.isSome
  · obtain ⟨b, given, called, known⟩ := scenic
    have settled := sound.settles host called known
    rw [Step.request?, called]
    split at settled
    · obtain ⟨r, asks, -, scene⟩ := settled
      rw [if_pos ‹_›, Option.bind_some, asks]
      exact scene
    · rw [if_neg ‹_›]
      exact settled
  · have other : ∀ b given, s.called? = some (b, given) → b.sceneKind? = none := by
      intro b given called
      rw [← Option.not_isSome_iff_eq_none]
      exact fun known => scenic ⟨b, given, called, known⟩
    have nothing : s.request? host context = none := by
      refine Option.eq_none_iff_forall_ne_some.mpr fun r is => ?_
      obtain ⟨-, b, given, called, asks⟩ := Step.request?_eq_some is
      cases (Machine.kind_of_request? asks).symm.trans (other b given called)
    rw [nothing]
    exact (sound.moves host).2 other

end Step

/-- The scene holds what the steps have asked for, besides what was there at the start. -/
structure Recorded (host : Host) (context : Context) (past : List Step) (start final : Scene) :
    Prop where
  objects : final.objects = start.objects ++ past.filterMap (Step.placed? host context)
  background : final.background =
    (past.filterMap (Step.painted? host context)).getLast?.or start.background

theorem Recorded.snoc {past : List Step} {start : Scene} {nodes : List Node} {s : Step}
    (recorded : Recorded host context past start s.before.scene) (sound : s.Sound context nodes) :
    Recorded host context (past ++ [s]) start (s.after host context).scene := by
  have scene := sound.scene_after host
  constructor
  · rw [List.filterMap_append, ← List.append_assoc, ← recorded.objects, scene]
    cases asks : s.request? host context with
    | none => simp [Step.placed?, asks]
    | some r =>
      dsimp only
      rw [Scene.objects_accept]
      cases object : r.object? <;> simp [Step.placed?, asks, object]
  · rw [List.filterMap_append, List.getLast?_append, Option.or_assoc, ← recorded.background, scene]
    cases asks : s.request? host context with
    | none => simp [Step.painted?, asks]
    | some r =>
      dsimp only
      rw [Scene.background_accept]
      cases color : r.background? <;> simp [Step.painted?, asks, color]

theorem Leads.recorded {past : List Step} {nodes : List Node}
    (leads : Leads host context m past m') (sound : ∀ s ∈ past, s.Sound context nodes) :
    Recorded host context past m.scene m'.scene := by
  induction leads with
  | nil => exact ⟨by simp, by simp⟩
  | @snoc past s _ ih =>
    obtain ⟨earlier, last⟩ := List.forall_mem_append.mp sound
    exact (ih earlier).snoc (last s List.mem_cons_self)

/-- At every point of a run, whatever the program and the host, the scene has one object for each
    `block` and `pyramid` call that has returned, in the order of the calls and as the arguments of
    the call describe it, and the background of the last `setBackgroundColor` call that has
    returned. Every scene call that returns has asked for what its builtin does; one that raises
    leaves the scene as it was. -/
theorem scene_is_history_of_returned_calls (host : SceneHost) (context : Context) (p : Program)
    {m : Machine} (closed : m.Closed) :
    (runProgram host context p).after m = arrival host context m (course host context p m) ∧
    (∀ past, past <+: course host context p m →
      Leads host context m past (arrival host context m past) ∧
      Recorded host context past m.scene (arrival host context m past).scene) ∧
    ∀ s ∈ course host context p m, ∀ b given kind, s.called? = some (b, given) →
      b.sceneKind? = some kind →
      if s.returns host context then ∃ r, s.request? host context = some r ∧ r.kind = kind
      else (s.after host context).scene = s.before.scene := by
  have leads := (tells_watchProgram host context p).leads m
  have sound := sound_course (SceneHost.ordinary host) closed context p
  refine ⟨leads.eq_arrival, fun past starts => ?_, fun s member b given kind called known => ?_⟩
  · have point := leads.front starts
    exact ⟨point, point.recorded fun s inside => sound s (starts.subset inside)⟩
  · have settled := (sound s member).settles host called (by simp [known])
    split at settled
    · obtain ⟨r, asks, -⟩ := settled
      rw [if_pos ‹_›]
      refine ⟨r, ?_, Option.some.inj ((Machine.kind_of_request? asks).symm.trans known)⟩
      rw [Step.request?, if_pos ‹_›, called]
      exact asks
    · rw [if_neg ‹_›]
      exact settled

/-- Three scene calls, of which the host refuses the last, since it names no color. -/
def threeCalls : Origin := ⟨"scene",
  "setBackgroundColor('sky'); block([1, 2, 3], [0, 0, 0, 9], '#f00'); " ++
    "pyramid([1, 2, 3], [0, 0, 0], '');"⟩

theorem refused_call_is_not_recorded : ∃ p, FrontEnd.precedence.parse threeCalls = .ok p ∧
    Recorded (SceneHost.recording .none) (.top "<program>" 1)
      (course (SceneHost.recording .none) (.top "<program>" 1) p
        (Machine.initial.programContext Builtin.scene).2) .empty
      ((runProgram (SceneHost.recording .none) (.top "<program>" 1) p).after
        (Machine.initial.programContext Builtin.scene).2).scene := by
  obtain ⟨p, parsed⟩ : ∃ p, FrontEnd.precedence.parse threeCalls = .ok p :=
    FrontEnd.exists_of_toBool (by decide +kernel)
  have closed := Machine.closed_programContext Builtin.scene Machine.closed_initial (by decide)
  obtain ⟨ends, points, -⟩ := scene_is_history_of_returned_calls (.recording .none)
    (.top "<program>" 1) p closed
  refine ⟨p, parsed, ?_⟩
  rw [ends]
  exact (points _ List.prefix_rfl).2

example : (FrontEnd.precedence.parse threeCalls).toOption.any (fun p =>
    let scene := ((runProgram (SceneHost.recording .none) (.top "<program>" 1) p).after
      (Machine.initial.programContext Builtin.scene).2).scene
    scene.background = some "sky" ∧
      scene.objects.map (fun o => (o.shape, o.color)) = [(.block, "#f00")]) = true := by
  decide +kernel

end EvalM

end SceneScript
