import SceneScript.Proofs.Eval.History

/-!
The colors of scenes. The recording host lets a color in if it is a number sign and three or six
hexadecimal digits, or a word of letters; but it also lets one in that has a newline behind it.
Any other text that a program gives for a color ends the run with a fault of the builtin.
-/

namespace SceneScript

namespace Color

def HexDigit (c : Char) : Prop :=
  ('0' ≤ c ∧ c ≤ '9') ∨ ('a' ≤ c ∧ c ≤ 'f') ∨ ('A' ≤ c ∧ c ≤ 'F')

def Letter (c : Char) : Prop := ('a' ≤ c ∧ c ≤ 'z') ∨ ('A' ≤ c ∧ c ≤ 'Z')

/-- What a color is meant to be. -/
inductive Valid : List Char → Prop
  | number {digits : List Char} (count : digits.length = 3 ∨ digits.length = 6)
      (hexadecimal : ∀ c ∈ digits, HexDigit c) : Valid ('#' :: digits)
  | name {letters : List Char} (someLetter : letters ≠ []) (alphabetic : ∀ c ∈ letters, Letter c) :
      Valid letters

/-- A valid color, or one with a newline behind it. -/
def Admitted (color : String) : Prop :=
  Valid color.toList ∨ ∃ front, Valid front ∧ color.toList = front ++ ['\n']

theorem isHexDigit_iff {c : Char} : isHexDigit c = true ↔ HexDigit c := by
  simp [isHexDigit, Text.isDigit, HexDigit, or_assoc]

theorem isLetter_iff {c : Char} : Text.isLetter c = true ↔ Letter c := by
  simp [Text.isLetter, Letter]

theorem isPlain_iff {cs : List Char} : isPlain cs = true ↔ Valid cs := by
  unfold isPlain
  split
  · rename_i digits
    simp only [Bool.and_eq_true, Bool.or_eq_true, beq_iff_eq, List.all_eq_true, isHexDigit_iff]
    constructor
    · rintro ⟨count, hexadecimal⟩
      exact .number count hexadecimal
    · intro valid
      cases valid with
      | number count hexadecimal => exact ⟨count, hexadecimal⟩
      | name _ alphabetic => exact absurd (alphabetic '#' List.mem_cons_self) (by simp [Letter])
  · rename_i other
    simp only [Bool.and_eq_true, Bool.not_eq_true', List.isEmpty_eq_false_iff, List.all_eq_true,
      isLetter_iff]
    constructor
    · rintro ⟨someLetter, alphabetic⟩
      exact .name someLetter alphabetic
    · intro valid
      cases valid with
      | number => exact absurd rfl (other _)
      | name someLetter alphabetic => exact ⟨someLetter, alphabetic⟩

theorem isColor_iff {color : String} : isColor color = true ↔ Admitted color := by
  have newline (cs : List Char) : (cs.getLast? == some '\n' && isPlain cs.dropLast) = true ↔
      ∃ front, Valid front ∧ cs = front ++ ['\n'] := by
    rw [Bool.and_eq_true, beq_iff_eq, isPlain_iff]
    constructor
    · rintro ⟨last, valid⟩
      exact ⟨cs.dropLast, valid, (List.dropLast_append_getLast? _ last).symm⟩
    · rintro ⟨front, valid, rfl⟩
      simpa using valid
  rw [isColor, Bool.or_eq_true, isPlain_iff, newline, Admitted]

end Color

/-- All colors of the scene are admitted. -/
structure Scene.Colored (scene : Scene) : Prop where
  background : ∀ color, scene.background = some color → Color.Admitted color
  objects : ∀ object ∈ scene.objects, Color.Admitted object.color

theorem Scene.colored_empty : empty.Colored where
  background _ is := nomatch is
  objects _ inside := nomatch inside

theorem Scene.Colored.accept {scene : Scene} (colored : scene.Colored) {r : SceneRequest}
    (admitted : Color.Admitted r.color) : (scene.accept r).Colored := by
  cases r with
  | background color =>
    refine ⟨fun other is => ?_, colored.objects⟩
    cases is
    exact admitted
  | place object =>
    refine ⟨colored.background, List.forall_mem_append.mpr ⟨colored.objects, ?_⟩⟩
    exact List.forall_mem_singleton.mpr admitted

namespace Machine

variable {m : Machine} {b : Builtin} {given : List Content} {r : SceneRequest}

theorem color_of_request? (asks : m.request? b given = some r) :
    given.getLast? = some (.text r.color) := by
  have text {content : Content} {s : String} (is : content.text? = some s) : content = .text s := by
    cases content <;> cases is
    rfl
  have object {shape : Shape} {o : SceneObject} (is : m.object? shape given = some o) :
      given.getLast? = some (.text o.color) := by
    unfold object? at is
    split at is
    · obtain ⟨_, -, is⟩ := Option.bind_eq_some_iff.mp is
      obtain ⟨_, -, is⟩ := Option.bind_eq_some_iff.mp is
      obtain ⟨s, isText, is⟩ := Option.bind_eq_some_iff.mp is
      cases is
      rw [text isText]
      rfl
    · cases is
  unfold request? at asks
  split at asks
  · obtain ⟨s, isText, rfl⟩ := Option.map_eq_some_iff.mp asks
    rw [text isText]
    rfl
  · obtain ⟨o, is, rfl⟩ := Option.map_eq_some_iff.mp asks
    exact object is
  · obtain ⟨o, is, rfl⟩ := Option.map_eq_some_iff.mp asks
    exact object is
  · cases asks

end Machine

namespace SceneHost

variable {refusals : Refusals} {scene : Scene} {r : SceneRequest}

theorem objection?_of_not_admitted (other : ¬ Color.Admitted r.color) :
    (recording refusals).objection? scene r =
      some ((refusals.of r.kind).getD ("invalid color " ++ Text.quoted r.color)) := by
  have refused : (recording refusals).refuse scene r =
      some ("invalid color " ++ Text.quoted r.color) :=
    if_neg fun is => other (Color.isColor_iff.mp is)
  rw [objection?, refused]
  show (refusals.of r.kind).or _ = _
  cases refusals.of r.kind <;> rfl

theorem admitted_of_objection? (free : (recording refusals).objection? scene r = none) :
    Color.Admitted r.color := by
  by_contra other
  cases free.symm.trans (objection?_of_not_admitted other)

end SceneHost

namespace EvalM

variable {context : Context} {nodes : List Node} {s : Step} {refusals : SceneHost.Refusals}

theorem Step.Sound.colored (sound : s.Sound context nodes) (colored : s.before.scene.Colored) :
    (s.after (SceneHost.recording refusals) context).scene.Colored := by
  rw [sound.scene_after]
  cases is : s.request? (SceneHost.recording refusals) context with
  | none => exact colored
  | some r =>
    obtain ⟨returns, b, given, called, asks⟩ := Step.request?_eq_some is
    have settled := sound.settles (.recording refusals) called
      (by simp [Machine.kind_of_request? asks])
    rw [if_pos returns] at settled
    obtain ⟨r', asks', free, -⟩ := settled
    cases asks.symm.trans asks'
    exact colored.accept (SceneHost.admitted_of_objection? free)

/-- A scene call with a text for a color that is not admitted is a fault of the builtin, at the
    place of the call. If nothing else is wrong with the arguments, the color is. -/
theorem Step.Sound.refuses (refusals : SceneHost.Refusals) (sound : s.Sound context nodes)
    (expression : s.node.IsExpression) (rooted : context.table < s.before.tables.size)
    {b : Builtin} {given : List Content} (called : s.called? = some (b, given))
    {kind : SceneKind} (known : b.sceneKind? = some kind)
    (count : given.length = b.params.length) {color : String}
    (last : given.getLast? = some (.text color)) (other : ¬ Color.Admitted color) :
    ∃ cause m', (s.deed.run (SceneHost.recording refusals) context).run s.before =
        .error (.runtime ⟨cause, s.node.span, some (context.call b.name s.node.span.start)⟩) m' ∧
      m'.scene = s.before.scene ∧ ∀ r, s.before.request? b given = some r →
        cause = .refused kind
          ((refusals.of kind).getD ("invalid color " ++ Text.quoted color)) := by
  have asked {r : SceneRequest} (asks : s.before.request? b given = some r) :
      r.kind = kind ∧ r.color = color := by
    constructor
    · exact Option.some.inj ((Machine.kind_of_request? asks).symm.trans known)
    · cases (Machine.color_of_request? asks).symm.trans last
      rfl
  obtain ⟨callee, args, deed, content, rfl⟩ := Step.called?_eq_some called
  have fits := sound.fits
  rw [deed] at fits
  obtain ⟨-, ⟨_, owner, there, belongs⟩, firm⟩ := fits
  rw [Machine.cell_of_getElem? there] at content
  cases content
  obtain rfl : owner = context := belongs expression b rfl
  have ends := ends_execute_scene (SceneHost.recording refusals : Host) (by simp [known]) there
    sound.closed firm
  rw [deed]
  cases ran : (execute (SceneHost.recording refusals) callee args).run s.before with
  | ok r m' =>
    obtain ⟨r, asks, free, -⟩ := ends.of_ok ran
    have admitted := SceneHost.admitted_of_objection? free
    rw [(asked asks).2] at admitted
    exact absurd admitted other
  | error e m' =>
    rw [Machine.contents, List.length_map] at count
    obtain ⟨scene, fault⟩ := ends.of_error ran
    obtain ⟨cause, rfl, refused⟩ := fault count rooted
    refine ⟨cause, m', ran, scene, fun r asks => ?_⟩
    obtain ⟨message, objects, rfl⟩ := refused r asks
    obtain ⟨rfl, rfl⟩ := asked asks
    cases objects.symm.trans (SceneHost.objection?_of_not_admitted other)
    rfl

theorem Step.Sound.isExpression {p : Program} (sound : s.Sound context p.toNode.order)
    (expressions : Node.AreExpressions p.body) {b : Builtin} {given : List Content}
    (called : s.called? = some (b, given)) : s.node.IsExpression := by
  obtain ⟨callee, args, deed, -⟩ := Step.called?_eq_some called
  have fits := sound.fits
  rw [deed] at fits
  have inside := sound.inside
  rw [Program.toNode, Node.order, List.mem_append, List.mem_singleton] at inside
  rcases inside with part | whole
  · exact expressions.part part
  · have site := fits.1
    rw [whole] at site
    cases site

theorem rooted_of_mem_course {host : SceneHost} {p : Program} {m : Machine} (closed : m.Closed)
    (rooted : context.table < m.tables.size) (member : s ∈ course host context p m) :
    context.table < s.before.tables.size := by
  have sound := sound_course (SceneHost.ordinary host) closed context p
  have leads := (tells_watchProgram host context p).leads m
  obtain ⟨past, later, split⟩ := List.append_of_mem member
  rw [course] at split
  rw [split] at leads
  refine leads.at_step.induct (P := fun m => context.table < m.tables.size) rooted
    fun t inside holds => ?_
  have among : t ∈ course host context p m := by
    rw [course, split]
    exact List.mem_append_left _ inside
  exact Nat.lt_of_lt_of_le holds ((sound t among).moves host).1

/-- Whatever program runs against a recording host, at every point of the run the colors of the
    scene are admitted, if they were at the start. When a scene builtin is called with the right
    number of arguments and a text for a color that is not admitted, the run ends there with a
    fault of the builtin and an unchanged scene; and the fault is about the color unless the
    other arguments are wrong too. -/
theorem only_admitted_colors_enter_scene {f : FrontEnd} {origin : Origin} {p : Program}
    (parsed : f.parse origin = .ok p) (refusals : SceneHost.Refusals) (context : Context)
    {m : Machine} (closed : m.Closed) (rooted : context.table < m.tables.size)
    (colored : m.scene.Colored) :
    (∀ past, past <+: course (SceneHost.recording refusals) context p m →
      (arrival (SceneHost.recording refusals) context m past).scene.Colored) ∧
    ((runProgram (SceneHost.recording refusals) context p).after m).scene.Colored ∧
    ∀ s ∈ course (SceneHost.recording refusals) context p m, ∀ b given kind color,
      s.called? = some (b, given) → b.sceneKind? = some kind → given.length = b.params.length →
      given.getLast? = some (.text color) → ¬ Color.Admitted color →
      ∃ cause m', (runProgram (SceneHost.recording refusals) context p).run m =
          .error (.runtime ⟨cause, s.node.span, some (context.call b.name s.node.span.start)⟩) m' ∧
        m'.scene = s.before.scene ∧ ∀ r, s.before.request? b given = some r →
          cause = .refused kind
            ((refusals.of kind).getD ("invalid color " ++ Text.quoted color)) := by
  have told := tells_watchProgram (SceneHost.recording refusals) context p
  have sound := sound_course (SceneHost.ordinary (.recording refusals)) closed context p
  have painted {past : List Step} {m' : Machine}
      (leads : Leads (SceneHost.recording refusals) context m past m')
      (inside : past ⊆ course (SceneHost.recording refusals) context p m) : m'.scene.Colored :=
    leads.induct (P := fun m => m.scene.Colored) colored
      fun s member holds => (sound s (inside member)).colored holds
  refine ⟨fun past starts => painted ((told.leads m).front starts) starts.subset,
    painted (told.leads m) fun _ => id, ?_⟩
  intro s member b given kind color called known count last other
  obtain ⟨cause, m', failed, scene, blames⟩ := (sound s member).refuses refusals
    ((sound s member).isExpression (f.areExpressions_of_parse parsed) called)
    (rooted_of_mem_course closed rooted member) called known count last other
  exact ⟨cause, m', told.stops m s member _ _ failed, scene, blames⟩

def Step.paints (color : String) (s : Step) : Bool :=
  match s.called? with
  | some (.setBackgroundColor, [.text c]) => c == color
  | _ => false

theorem Step.called?_of_paints {color : String} (paints : s.paints color = true) :
    s.called? = some (.setBackgroundColor, [.text color]) := by
  unfold Step.paints at paints
  split at paints
  · rename_i is
    rw [is, beq_iff_eq.mp paints]
  · cases paints

/-- A space is no part of a color. -/
theorem spaced_color_ends_run : ∃ p cause m' span,
    FrontEnd.precedence.parse
      ⟨"colors", "setBackgroundColor('sky'); setBackgroundColor('light blue');"⟩ = .ok p ∧
    (runProgram (SceneHost.recording .none) (.top "<program>" 1) p).run
        (Machine.initial.programContext Builtin.scene).2 =
      .error (.runtime ⟨cause, span, some ((Context.top "<program>" 1).call "setBackgroundColor"
        span.start)⟩) m' ∧ m'.scene.Colored := by
  obtain ⟨p, parsed⟩ : ∃ p, FrontEnd.precedence.parse
      ⟨"colors", "setBackgroundColor('sky'); setBackgroundColor('light blue');"⟩ = .ok p :=
    FrontEnd.exists_of_toBool (by decide +kernel)
  have checked : (FrontEnd.precedence.parse
      ⟨"colors", "setBackgroundColor('sky'); setBackgroundColor('light blue');"⟩).toOption.any
        (fun p => (course (SceneHost.recording .none) (.top "<program>" 1) p
          (Machine.initial.programContext Builtin.scene).2).any (Step.paints "light blue")) =
      true := by
    decide +kernel
  rw [parsed] at checked
  obtain ⟨s, member, paints⟩ := List.any_eq_true.mp checked
  have closed := Machine.closed_programContext Builtin.scene Machine.closed_initial (by decide)
  obtain ⟨-, final, faults⟩ := only_admitted_colors_enter_scene parsed .none
    (.top "<program>" 1) closed (by decide) Scene.colored_empty
  have called := Step.called?_of_paints paints
  obtain ⟨cause, m', failed, -⟩ := faults s member _ _ _ _ called rfl rfl rfl
    fun admitted => absurd (Color.isColor_iff.mpr admitted) (by decide +kernel)
  rw [after, failed] at final
  exact ⟨p, cause, m', _, parsed, failed, final⟩

/-- A newline behind a color is let in with it. -/
example : (FrontEnd.precedence.parse ⟨"colors", "setBackgroundColor('red\\n');"⟩).toOption.any
      (fun p => ((runProgram (SceneHost.recording .none) (.top "<program>" 1) p).after
        (Machine.initial.programContext Builtin.scene).2).scene.background = some "red\n") = true ∧
    Color.isPlain "red\n".toList = false := by
  decide +kernel

end EvalM

end SceneScript
