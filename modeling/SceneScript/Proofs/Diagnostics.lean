import SceneScript.Proofs.Eval.Blame
import SceneScript.Proofs.Parse.Faults

/-!
Where faults are reported: inside the text, and those of a running program inside the statement
that is executed.
-/

namespace SceneScript

namespace EvalM

variable {α : Type} {host : Host} {context : Context} {m m' : Machine}

/-- The fault with which an evaluation ends, if it ends with one. -/
def fault? (x : EvalM α) (m : Machine) : Option RuntimeFault :=
  match x.run m with
  | .error (.runtime fault) _ => some fault
  | _ => none

theorem fault?_eq_some_iff {x : EvalM α} {fault : RuntimeFault} :
    x.fault? m = some fault ↔ ∃ m', x.run m = .error (.runtime fault) m' := by
  unfold fault?
  constructor
  · intro found
    split at found
    · rename_i m' ran
      cases found
      exact ⟨m', ran⟩
    · cases found
  · rintro ⟨m', ran⟩
    rw [ran]

/-- The statements before this one are done, and it fails. -/
def FailsDuring (host : Host) (context : Context) (body : List Node) (statement : Node)
    (fault : RuntimeFault) (m : Machine) : Prop :=
  ∃ before after refs m₁, body = before ++ statement :: after ∧
    (evalAll host context before).run m = .ok refs m₁ ∧
    (eval host context statement).fault? m₁ = some fault

theorem failsDuring_of_evalAll {body : List Node} {fault : RuntimeFault}
    (failed : (evalAll host context body).run m = .error (.runtime fault) m') :
    ∃ statement, FailsDuring host context body statement fault m := by
  induction body generalizing m with
  | nil =>
    rw [evalAll] at failed
    cases failed
  | cons node nodes ih =>
    rw [evalAll] at failed
    rcases run_bind_eq_error failed with here | ⟨r, m₁, ran, later⟩
    · exact ⟨node, [], nodes, [], m, rfl, by rw [evalAll]; rfl, fault?_eq_some_iff.mpr ⟨m', here⟩⟩
    · rcases run_bind_eq_error later with there | ⟨rs, m₂, -, never⟩
      · obtain ⟨statement, before, after, refs, m₂, rfl, done, fails⟩ := ih there
        refine ⟨statement, node :: before, after, r :: refs, m₂, rfl, ?_, fails⟩
        rw [evalAll, run_bind, ran]
        simp only [run_bind, done]
        rfl
      · cases never

/-- A fault of a program is one of its statements. -/
theorem failsDuring_of_runProgram {p : Program} {fault : RuntimeFault}
    (failed : (runProgram host context p).fault? m = some fault) :
    ∃ statement events,
      FailsDuring host context p.body statement fault { m with events := events } := by
  obtain ⟨m', ended⟩ := fault?_eq_some_iff.mp failed
  rcases run_bind_eq_error ended with never | ⟨_, _, noted, visit⟩
  · cases never
  cases noted
  rcases run_bind_eq_error visit with evaluated | ⟨_, _, -, never⟩
  · rw [Program.toNode, eval] at evaluated
    rcases run_bind_eq_error evaluated with never | ⟨_, _, visited, body⟩
    · cases never
    cases visited
    rcases run_bind_eq_error body with statements | ⟨_, m₁, -, copying⟩
    · obtain ⟨statement, fails⟩ := failsDuring_of_evalAll statements
      exact ⟨statement, _, fails⟩
    · -- The value of a program is a copy of a constant, and copying is no fault.
      rw [run_clone] at copying
      cases copy : (m₁.cell (Machine.constant .null)).copied with
      | ok c =>
        rw [copy] at copying
        cases copying
      | error e =>
        rw [copy, Cell.copied_eq_error copy] at copying
        cases copying
  · cases never

end EvalM

/-- The values of the operands of an operator stand apart, in the order of the text. -/
theorem Node.Placed.operands {node left right : Node} {op : Token} {span : Span} {a b : Nat}
    (placed : node.Placed a b) (inside : .binary left op right span ∈ node.order) :
    ∃ c₁ d₁ c₂ d₂, a ≤ c₁ ∧ left.core.span.Covers c₁ d₁ ∧ d₁ < c₂ ∧
      right.core.span.Covers c₂ d₂ ∧ d₂ ≤ b := by
  obtain ⟨c, d, low, ⟨-, s, t, first, apart, second⟩, high⟩ := placed.within inside
  obtain ⟨c₁, d₁, low₁, leftCore, high₁⟩ := first.within left.core_mem_order
  obtain ⟨c₂, d₂, low₂, rightCore, high₂⟩ := second.within right.core_mem_order
  exact ⟨c₁, d₁, c₂, d₂, Nat.le_trans low low₁, leftCore.covers,
    Nat.lt_of_le_of_lt high₁ (Nat.lt_of_lt_of_le apart low₂), rightCore.covers,
    Nat.le_trans high₂ high⟩

namespace RuntimeFault

/-- The fault of a product, from the start of the right operand to the end of the left one. -/
def IsReversed (fault : RuntimeFault) (statement : Node) : Prop :=
  ∃ left op right span times limit, .binary left op right span ∈ statement.order ∧
    Operator.ofToken? op = some .mul ∧ fault.cause = .cannotRepeat times limit ∧
    fault.span = right.core.span.join left.core.span

/-- The fault starts and stops between the indices. It starts before it stops, unless it is
    reversed, and then it stops before it starts. -/
def LiesIn (fault : RuntimeFault) (statement : Node) (a b : Nat) : Prop :=
  ∃ start stop : Position, fault.report.span = ⟨start, stop⟩ ∧
    a ≤ start.index ∧ start.index ≤ b ∧ a ≤ stop.index ∧ stop.index ≤ b ∧
    (start.index < stop.index ∨ stop.index < start.index ∧ fault.IsReversed statement)

theorem LiesIn.of_covers {fault : RuntimeFault} {statement : Node} {a b c d : Nat}
    (covers : fault.span.Covers c d) (low : a ≤ c) (high : d ≤ b) :
    fault.LiesIn statement a b := by
  obtain ⟨start, stop, same, rfl, rfl, ordered⟩ := covers
  exact ⟨start, stop, same, low, by omega, by omega, high, .inl ordered⟩

theorem BlamedOn.liesIn {statement : Node} {a b : Nat} {fault : RuntimeFault}
    (placed : statement.Placed a b) (blamed : fault.BlamedOn statement.order) :
    fault.LiesIn statement a b := by
  cases blamed with
  | part inside cause context =>
    obtain ⟨c, d, low, there, high⟩ := placed.within inside
    exact .of_covers there.covers low high
  | operands inside cause context =>
    obtain ⟨c₁, d₁, c₂, d₂, low, left, apart, right, high⟩ := placed.operands inside
    have reach : c₁ < d₂ := Nat.lt_trans left.lt (Nat.lt_trans apart right.lt)
    exact .of_covers (left.join right reach) low high
  | @reversed l r op span inside product times limit context =>
    obtain ⟨c₁, d₁, c₂, d₂, low, left, apart, right, high⟩ := placed.operands inside
    have before := left.lt
    have behind := right.lt
    obtain ⟨_, stop, first, rfl, rfl, -⟩ := left
    obtain ⟨start, _, second, rfl, rfl, -⟩ := right
    have backwards : (Span.join r.core.span l.core.span) = ⟨start, stop⟩ := by
      rw [first, second]
      rfl
    exact ⟨start, stop, backwards, by omega, by omega, by omega, by omega,
      .inr ⟨apart, l, op, r, span, times, limit, inside, product, rfl, rfl⟩⟩

end RuntimeFault

/-- A fault is reported at a stretch of the text, which may reach one past its end. The fault of a
    running program lies in the statement that is executed. Its ends are in order, except that a
    number in front of a text that cannot be repeated so often has them the other way round. -/
theorem diagnostics_point_into_the_text (f : FrontEnd) (origin : Origin) :
    (∀ fault, f.parse origin = .error fault →
      ∃ start stop : Position, fault.report.span = ⟨start, stop⟩ ∧ start.index < stop.index ∧
        stop.index ≤ origin.text.length + 1) ∧
    ∀ (p : Program) (scene : SceneHost) (context : Context) (m : Machine) (fault : RuntimeFault),
      f.parse origin = .ok p → (EvalM.runProgram scene context p).fault? m = some fault →
      ∃ statement events a b,
        EvalM.FailsDuring scene context p.body statement fault { m with events := events } ∧
        statement.span.Covers a b ∧ b ≤ origin.text.length + 1 ∧ fault.LiesIn statement a b := by
  constructor
  · intro fault failed
    obtain ⟨a, b, ⟨start, stop, same, rfl, rfl, ordered⟩, within⟩ := f.inside_of_parse failed
    exact ⟨start, stop, same, ordered, within⟩
  · intro p scene context m fault parsed failed
    obtain ⟨statement, events, fails⟩ := EvalM.failsDuring_of_runProgram failed
    obtain ⟨before, after, refs, m₁, body, -, stops⟩ := id fails
    obtain ⟨m', stopped⟩ := EvalM.fault?_eq_some_iff.mp stops
    have member : statement ∈ p.body := by simp [body]
    have inside := Node.order_subset_orderAll member statement.mem_order_self
    obtain ⟨a, b, -, placed, within⟩ := (f.placedAll_of_parse parsed).within inside
    have expression := (f.areExpressions_of_parse parsed).part inside
    have blamed : fault.BlamedOn statement.order :=
      EvalM.Ends.of_error (EvalM.blames_eval context statement expression) stopped
    exact ⟨statement, events, a, b, fails, placed.covers, Nat.le_succ_of_le within,
      blamed.liesIn placed⟩

/-- A text that ends too early, and a program that speaks of a variable that there is not. -/
theorem undefined_name_is_located :
    (∃ fault, FrontEnd.precedence.parse ⟨"names", "x"⟩ = .error fault ∧
      ∃ start stop : Position, fault.report.span = ⟨start, stop⟩ ∧ stop.index ≤ 2) ∧
    ∃ p fault, FrontEnd.precedence.parse ⟨"names", "x;"⟩ = .ok p ∧
      (EvalM.runProgram (SceneHost.recording .none) (.top "<program>" 1) p).fault?
        (Machine.initial.programContext []).2 = some fault ∧
      ∃ start stop : Position, fault.report.span = ⟨start, stop⟩ ∧ start.index ≤ 3 ∧
        stop.index ≤ 3 := by
  constructor
  · have refused : (FrontEnd.precedence.parse ⟨"names", "x"⟩).toBool = false := by decide +kernel
    cases parsed : FrontEnd.precedence.parse ⟨"names", "x"⟩ with
    | ok p =>
      rw [parsed] at refused
      cases refused
    | error fault =>
      obtain ⟨start, stop, same, -, within⟩ :=
        (diagnostics_point_into_the_text .precedence ⟨"names", "x"⟩).1 fault parsed
      exact ⟨fault, rfl, start, stop, same, within⟩
  · obtain ⟨p, parsed⟩ : ∃ p, FrontEnd.precedence.parse ⟨"names", "x;"⟩ = .ok p :=
      FrontEnd.exists_of_toBool (by decide +kernel)
    have fails : ((FrontEnd.precedence.parse ⟨"names", "x;"⟩).toOption.bind fun p =>
        (EvalM.runProgram (SceneHost.recording .none) (.top "<program>" 1) p).fault?
          (Machine.initial.programContext []).2).isSome = true := by decide +kernel
    rw [parsed] at fails
    obtain ⟨fault, failed⟩ := Option.isSome_iff_exists.mp fails
    obtain ⟨statement, events, a, b, -, -, within, start, stop, same, -, low, -, high, -⟩ :=
      (diagnostics_point_into_the_text .precedence ⟨"names", "x;"⟩).2 p (.recording .none) _ _
        fault parsed failed
    have short : (⟨"names", "x;"⟩ : Origin).text.length = 2 := rfl
    exact ⟨p, fault, parsed, failed, start, stop, same, by omega, by omega⟩

end SceneScript
