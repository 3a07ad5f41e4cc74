import SceneScript.Proofs.Eval.Frame
import SceneScript.Proofs.Eval.Steps
import SceneScript.Proofs.Parse.Shape

/-!
Places of stored values. What evaluation places anew it has copied or made before, so that a stored
value stays where it was written. A plus sign makes no value of its own: in front of an
assignment it places the very value that the assignment stored.
-/

namespace SceneScript

def Node.isUnary : Node → Bool
  | .unary .. => true
  | _ => false

namespace Machine

/-- The value is bound to a name, or is an element of a list that is stored. -/
inductive Stored (m : Machine) : Ref → Prop
  | bound {id : TableId} {t : Table} {entry : Name × Ref} (table : m.tables[id]? = some t)
      (member : entry ∈ t.entries) : Stored m entry.2
  | element {list r : Ref} (stored : Stored m list)
      (member : r ∈ (m.cell list).content.elements) : Stored m r

theorem Stored.held {m : Machine} {r : Ref} (stored : m.Stored r) : m.Held r := by
  cases stored with
  | bound table member => exact .inl ⟨_, _, table, _, member, rfl⟩
  | element _ member => exact held_of_elements member

def spanOf (m : Machine) (r : Ref) : Span := (m.cell r).stamp.span

theorem spanOf_place_self {m : Machine} {r : Ref} (existed : r < m.cells.size) (span : Span) :
    (m.place r span).spanOf r = span := by
  rw [spanOf, cell, place, Array.getElem?_modify, if_pos rfl, getElem?_of_lt existed]
  rfl

theorem spanOf_place_of_ne {m : Machine} {r s : Ref} (differ : s ≠ r) (span : Span) :
    (m.place r span).spanOf s = m.spanOf s := by
  rw [spanOf, spanOf, cell, cell, place, Array.getElem?_modify, if_neg (Ne.symm differ)]

theorem Extends.spanOf_eq {m m' : Machine} (more : m.Extends m') {r : Ref}
    (existed : r < m.cells.size) : m'.spanOf r = m.spanOf r := by
  rw [spanOf, spanOf, more.cell_eq existed]

end Machine

namespace EvalM

variable {host : Host} {context : Context} {m : Machine}

theorem extends_apply_or_place (context : Context) (op : Token) {operand : Ref}
    (existed : operand < m.cells.size) (span : Span) :
    m.Extends ((apply context op operand span).after m) ∨
      op.kind ≠ .minus ∧ op.kind ≠ .bang ∧
        (apply context op operand span).after m = m.place operand span := by
  unfold after
  refine run_apply_cases context op span (Machine.getElem?_of_lt existed) ?minus ?bang ?plus ?other
  case minus => exact fun x _ _ => .inl (((Machine.Extends.refl m).alloc _).alloc _)
  case bang => exact fun x _ _ => .inl ((Machine.Extends.refl m).alloc _)
  case plus => exact fun x minus bang _ => .inr ⟨minus, bang, rfl⟩
  case other => exact fun _ => .inl (.refl m)

theorem Deed.extends_after (honest : host.KeepsValues) (context : Context) (deed : Deed)
    (m : Machine) (other : ∀ op r span, deed ≠ .apply op r span) :
    m.Extends ((deed.run host context).after m) := by
  cases deed with
  | note e =>
    exact ((Frames.record e).bind fun _ _ => Frames.pure (P := Any) trivial).extends_after
  | readName token span => exact (Frames.readName context token span).extends_after
  | readNumber token span =>
    exact ((Frames.readNumber _).bind fun _ _ => Frames.alloc _ _).extends_after
  | readString token span => exact (Frames.alloc _ _).extends_after
  | combine op left right span => exact (Frames.combine context op left right span).extends_after
  | apply op operand span => exact absurd rfl (other op operand span)
  | collect elements span => exact (Frames.alloc _ _).extends_after
  | prepare callee span => exact (Frames.prepareCallee callee span).extends_after
  | call callee args => exact (Frames.execute honest callee args).extends_after
  | take result span => exact (Frames.takeResult context result span).extends_after
  | assign name value =>
    refine ((Frames.nameOf name).bind fun name _ => ?_).extends_after (P := Any)
    have bound (m : Machine) : (m.bind context.table name value).cells = m.cells := rfl
    exact (Frames.aside bound).bind fun _ _ => Frames.pure trivial
  | conclude => exact (Frames.clone _).extends_after
  | stray => exact (Frames.throw (P := Any) _).extends_after

/-- A step leaves the places of stored values alone, unless it is for a plus sign in front of an
    assignment, which places what the assignment stored. -/
theorem Step.Sound.spanOf_after {nodes : List Node} {s : Step} (sound : s.Sound context nodes)
    (honest : host.KeepsValues) {r : Ref} (stored : s.before.Stored r) :
    (s.after host context).spanOf r = s.before.spanOf r ∨
      ∃ op operand span, s.node = .unary op operand span ∧ s.node.HandsOver ∧
        s.deed = .apply op r span ∧ (s.after host context).spanOf r = span := by
  have existed := (sound.closed.held r stored.held).1
  obtain ⟨node, deed, before⟩ := s
  by_cases sign : ∃ op operand span, deed = .apply op operand span
  · obtain ⟨op, operand, span, rfl⟩ := sign
    obtain ⟨there, part, rfl, owned⟩ := sound.fits
    rcases extends_apply_or_place context op there span with more | ⟨minus, bang, placed⟩
    · exact .inl (more.spanOf_eq existed)
    · unfold Step.after Deed.run
      dsimp only at placed ⊢
      rw [placed]
      by_cases same : r = operand
      · subst same
        refine .inr ⟨op, part, span, rfl, ⟨minus, bang, owned stored.held⟩, rfl, ?_⟩
        exact Machine.spanOf_place_self existed span
      · exact .inl (Machine.spanOf_place_of_ne same span)
  · have more := deed.extends_after honest context before fun op r span is => sign ⟨op, r, span, is⟩
    exact .inl (more.spanOf_eq existed)

end EvalM

open EvalM

/-- At every step of every run, a value that is bound to a name, or is an element of a stored list
    at any depth, stays at its place, with one exception: a plus sign in front of an assignment
    gives the value that was just stored its own place. A program without such a sign moves no
    stored value. -/
theorem stored_values_stay_in_place {host : Host} (ordinary : host.Ordinary)
    (honest : host.KeepsValues) (context : Context) (p : Program) {m : Machine}
    (closed : m.Closed) :
    Leads host context m (course host context p m) ((runProgram host context p).after m) ∧
    (∀ s ∈ course host context p m, s.node ∈ p.toNode.order ∧ ∀ r, s.before.Stored r →
      (s.after host context).spanOf r = s.before.spanOf r ∨
        ∃ op operand span, s.node = .unary op operand span ∧ s.node.HandsOver ∧
          s.deed = .apply op r span ∧ (s.after host context).spanOf r = span) ∧
    ((∀ node ∈ p.toNode.order, node.isUnary → ¬ node.HandsOver) →
      ∀ s ∈ course host context p m, ∀ r, s.before.Stored r →
        (s.after host context).spanOf r = s.before.spanOf r) := by
  have sound := sound_course ordinary closed context p
  refine ⟨(tells_watchProgram host context p).leads m, fun s member => ⟨(sound s member).inside,
    fun r stored => (sound s member).spanOf_after honest stored⟩, ?_⟩
  intro plain s member r stored
  rcases (sound s member).spanOf_after honest stored with same | moved
  · exact same
  · obtain ⟨op, operand, span, node, handsOver, -⟩ := moved
    have unary : s.node.isUnary := by rw [node]; rfl
    exact absurd handsOver (plain s.node (sound s member).inside unary)

/-- A plus sign in front of a name works on a copy, and a minus sign makes a value of its own. -/
theorem signs_leave_variables_in_place : ∃ p,
    FrontEnd.precedence.parse ⟨"signs", "let a = 1; let b = [a, +a]; -(let c = +a);"⟩ = .ok p ∧
    (∀ node ∈ p.toNode.order, node.isUnary → ¬ node.HandsOver) ∧
    ∀ s ∈ course (SceneHost.recording .none) (.top "<program>" 1) p
        (Machine.initial.programContext []).2, ∀ r, s.before.Stored r →
      (s.after (SceneHost.recording .none) (.top "<program>" 1)).spanOf r =
        s.before.spanOf r := by
  obtain ⟨p, parsed⟩ : ∃ p, FrontEnd.precedence.parse
      ⟨"signs", "let a = 1; let b = [a, +a]; -(let c = +a);"⟩ = .ok p :=
    FrontEnd.exists_of_toBool (by decide +kernel)
  have checked : (FrontEnd.precedence.parse
      ⟨"signs", "let a = 1; let b = [a, +a]; -(let c = +a);"⟩).toOption.any
        (fun p => decide (∀ node ∈ p.toNode.order, node.isUnary → ¬ node.HandsOver)) = true := by
    decide +kernel
  rw [parsed] at checked
  have plain := of_decide_eq_true checked
  have closed := Machine.closed_programContext [] Machine.closed_initial (by decide)
  exact ⟨p, parsed, plain, (stored_values_stay_in_place (SceneHost.ordinary (.recording .none))
    (SceneHost.keepsValues _) (.top "<program>" 1) p closed).2.2 plain⟩

/-- In front of an assignment a plus sign does move the variable. -/
example : (FrontEnd.precedence.parse ⟨"signs", "+(let x = 1);"⟩).toOption.any (fun p =>
    (course (SceneHost.recording .none) (.top "<program>" 1) p
      (Machine.initial.programContext []).2).any fun s =>
        s.before.lookup 1 "x" = some 6 ∧
          (s.after (SceneHost.recording .none) (.top "<program>" 1)).spanOf 6 ≠
            s.before.spanOf 6) = true := by
  decide +kernel

end SceneScript
