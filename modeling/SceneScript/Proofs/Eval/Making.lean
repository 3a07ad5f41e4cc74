import SceneScript.Eval.Run
import SceneScript.Proofs.Eval.Outcome

/-!
What operations on values do to a machine: each makes one cell, or fails and changes nothing.
-/

namespace SceneScript

namespace Content

/-- The values that a value holds. -/
def elements : Content → List Ref
  | .list elements => elements
  | _ => []

theorem inert_ofLiteral (j : Json) (f : Builtin) : ofLiteral j ≠ .builtin f := by
  unfold ofLiteral
  split <;> simp

theorem firm_ofLiteral (j : Json) : ofLiteral j ≠ .plain := by
  unfold ofLiteral
  split <;> simp

theorem elements_ofLiteral (j : Json) : (ofLiteral j).elements = [] := by
  unfold ofLiteral
  split <;> rfl

end Content

namespace Cell

def atSpan (c : Cell) (span : Span) : Cell := { c with stamp := { c.stamp with span := span } }

/-- The copy of a cell. -/
def copied (c : Cell) : Except Failure Cell :=
  match c.content with
  | .plain => .error .uncopyable
  | _ => .ok c

theorem copied_of_firm {c : Cell} (firm : c.content ≠ .plain) : c.copied = .ok c := by
  unfold copied
  split
  · exact absurd ‹_› firm
  · rfl

theorem copied_eq_ok {c d : Cell} (made : c.copied = .ok d) : d = c ∧ c.content ≠ .plain := by
  unfold copied at made
  split at made
  · cases made
  · cases made
    exact ⟨rfl, ‹_›⟩

theorem copied_eq_error {c : Cell} {e : Failure} (failed : c.copied = .error e) :
    e = .uncopyable := by
  unfold copied at failed
  split at failed
  · cases failed
    rfl
  · cases failed

theorem map_copied_eq_ok {c d : Cell} {f : Cell → Cell} (made : c.copied.map f = .ok d) :
    d = f c ∧ c.content ≠ .plain := by
  cases copy : c.copied with
  | error e =>
    rw [copy] at made
    cases made
  | ok e =>
    rw [copy, (copied_eq_ok copy).1] at made
    cases made
    exact ⟨rfl, (copied_eq_ok copy).2⟩

theorem map_copied_eq_error {c : Cell} {e : Failure} {f : Cell → Cell}
    (failed : c.copied.map f = .error e) : e = .uncopyable := by
  cases copy : c.copied with
  | error e' =>
    rw [copy] at failed
    cases failed
    exact copied_eq_error copy
  | ok d =>
    rw [copy] at failed
    cases failed

end Cell

namespace Machine

/-- The machine with one more cell, or the failure to make it. -/
def store (m : Machine) : Except Failure Cell → EStateM.Result Failure Machine Ref
  | .ok c => .ok m.cells.size (m.alloc c).2
  | .error e => .error e m

/-- A value is placed anew where it is. -/
def place (m : Machine) (r : Ref) (span : Span) : Machine :=
  { m with cells := m.cells.modify r (·.atSpan span) }

theorem cell_of_getElem? {m : Machine} {r : Ref} {c : Cell} (there : m.cells[r]? = some c) :
    m.cell r = c := by
  rw [cell, there]
  rfl

theorem getElem?_of_lt {m : Machine} {r : Ref} (existed : r < m.cells.size) :
    m.cells[r]? = some (m.cell r) := by
  rw [cell, Array.getElem?_eq_getElem existed]
  rfl

@[simp] theorem size_alloc (m : Machine) (c : Cell) :
    (m.alloc c).2.cells.size = m.cells.size + 1 := by
  simp [alloc]

@[simp] theorem cell_alloc_self (m : Machine) (c : Cell) : (m.alloc c).2.cell m.cells.size = c := by
  simp [cell, alloc]

theorem getElem?_alloc (m : Machine) (c : Cell) (r : Ref) :
    (m.alloc c).2.cells[r]? = if r = m.cells.size then some c else m.cells[r]? :=
  Array.getElem?_push

theorem getElem?_alloc_self (m : Machine) (c : Cell) :
    (m.alloc c).2.cells[m.cells.size]? = some c := by
  rw [getElem?_alloc, if_pos rfl]

theorem getElem?_alloc_of_there {m : Machine} {r : Ref} {d : Cell} (there : m.cells[r]? = some d)
    (c : Cell) : (m.alloc c).2.cells[r]? = some d := by
  rw [getElem?_alloc, if_neg (Nat.ne_of_lt (Array.getElem?_eq_some_iff.mp there).1), there]

theorem getElem?_place_self {m : Machine} {r : Ref} {c : Cell} (there : m.cells[r]? = some c)
    (span : Span) : (m.place r span).cells[r]? = some (c.atSpan span) := by
  rw [place, Array.getElem?_modify, if_pos rfl, there]
  rfl

/-- Changing the newest cell is having made another one. -/
theorem modify_alloc (m : Machine) (c : Cell) (f : Cell → Cell) :
    { (m.alloc c).2 with cells := (m.alloc c).2.cells.modify m.cells.size f } =
      (m.alloc (f c)).2 := by
  have cells : (m.cells.push c).modify m.cells.size f = m.cells.push (f c) := by
    apply Array.ext_getElem?
    intro i
    rw [Array.getElem?_modify, Array.getElem?_push, Array.getElem?_push]
    by_cases last : i = m.cells.size
    · simp [last]
    · rw [if_neg (Ne.symm last), if_neg last, if_neg last]
  simp only [alloc, cells]

end Machine

namespace EvalM

variable {α β : Type} {m : Machine}

theorem run_bind (x : EvalM α) (f : α → EvalM β) (m : Machine) :
    (x >>= f).run m =
      match x.run m with
      | .ok a m' => (f a).run m'
      | .error e m' => .error e m' := by
  change EStateM.bind x f m = match x m with | .ok a m' => f a m' | .error e m' => .error e m'
  unfold EStateM.bind
  cases x m <;> rfl

theorem run_bind_eq_error {x : EvalM α} {f : α → EvalM β} {m' : Machine} {e : Failure}
    (failed : (x >>= f).run m = .error e m') : x.run m = .error e m' ∨
      ∃ a m₁, x.run m = .ok a m₁ ∧ (f a).run m₁ = .error e m' := by
  rw [run_bind] at failed
  cases ran : x.run m with
  | error e₁ m₁ =>
    rw [ran] at failed
    cases failed
    exact .inl rfl
  | ok a m₁ =>
    rw [ran] at failed
    exact .inr ⟨a, m₁, rfl, failed⟩

theorem run_cell_bind (r : Ref) (f : Cell → EvalM α) (m : Machine) :
    (cell r >>= f).run m = (f (m.cell r)).run m := rfl

theorem run_get_bind (f : Machine → EvalM α) (m : Machine) :
    ((get : EvalM Machine) >>= f).run m = (f m).run m := rfl

/-- The evaluation makes a cell or fails, in a way that is described, and does nothing else. -/
def Makes (x : EvalM Ref) (m : Machine) (outcome : Except Failure Cell → Prop) : Prop :=
  ∃ made, outcome made ∧ x.run m = m.store made

namespace Makes

variable {x : EvalM Ref} {P Q : Except Failure Cell → Prop}

theorem mono (makes : x.Makes m P) (more : ∀ made, P made → Q made) : x.Makes m Q := by
  obtain ⟨made, holds, ran⟩ := makes
  exact ⟨made, more made holds, ran⟩

theorem of_run {made : Except Failure Cell} (ran : x.run m = m.store made) :
    x.Makes m (· = made) := ⟨made, rfl, ran⟩

theorem alloc {content : Content} {stamp : Stamp} (holds : P (.ok ⟨content, stamp⟩)) :
    (EvalM.alloc content stamp).Makes m P := ⟨_, holds, rfl⟩

theorem throw {e : Failure} (holds : P (.error e)) :
    (MonadExcept.throw e : EvalM Ref).Makes m P := ⟨_, holds, rfl⟩

theorem fail {cause : RuntimeCause} {span : Span} {context : Context}
    (holds : P (.error (.runtime ⟨cause, span, some context⟩))) :
    (EvalM.fail cause span context : EvalM Ref).Makes m P := throw holds

theorem ends (makes : x.Makes m P) :
    x.Ends m (fun r m' => r = m.cells.size ∧ ∃ c, P (.ok c) ∧ m' = (m.alloc c).2)
      fun e m' => m' = m ∧ P (.error e) := by
  obtain ⟨made, holds, ran⟩ := makes
  unfold Ends
  rw [ran]
  cases made with
  | ok c => exact ⟨rfl, c, holds, rfl⟩
  | error e => exact ⟨rfl, holds⟩

end Makes

theorem run_clone (r : Ref) (m : Machine) : (clone r).run m = m.store (m.cell r).copied := by
  rw [clone, run_cell_bind, Cell.copied]
  cases content : (m.cell r).content <;> simp only [← content] <;> rfl

/-- What follows the making of a cell works on the new cell alone. -/
theorem run_bind_store {x : EvalM Ref} {f : Ref → EvalM Ref} {made : Except Failure Cell}
    {g : Cell → Cell} {m' : Machine} (ran : x.run m = m'.store made)
    (follows : ∀ c, (f m'.cells.size).run (m'.alloc c).2 = m'.store (.ok (g c))) :
    (x >>= f).run m = m'.store (made.map g) := by
  rw [run_bind, ran]
  cases made with
  | ok c => exact follows c
  | error e => rfl

theorem run_update_new (m : Machine) (c : Cell) (f : Cell → Cell) (next : Unit → EvalM α) :
    (update m.cells.size f >>= next).run (m.alloc c).2 = (next ()).run (m.alloc (f c)).2 :=
  congrArg (next ()).run (m.modify_alloc c f)

theorem run_prepareCallee (callee : Ref) (span : Span) (m : Machine) :
    (prepareCallee callee span).run m = m.store ((m.cell callee).copied.map (·.atSpan span)) :=
  run_bind_store (run_clone callee m) fun c => run_update_new m c _ _

theorem run_takeResult (context : Context) (result : Ref) (span : Span) (m : Machine) :
    (takeResult context result span).run m =
      m.store ((m.cell result).copied.map fun c => ⟨c.content, ⟨span, context⟩⟩) :=
  run_bind_store (run_clone result m) fun c =>
    (run_update_new m c _ _).trans (run_update_new m _ _ _)

/-- The cell that a name in a context stands for, copied to where the name stands. -/
def readOutcome (m : Machine) (context : Context) (token : Token) (span : Span) :
    Except Failure Cell :=
  match Name.ofJson? token.value with
  | none => .error (.misfit .kind)
  | some name =>
    match m.lookup context.table name with
    | none => .error (.runtime ⟨.undefined token.value.display, span, some context⟩)
    | some stored => (m.cell stored).copied.map fun c => ⟨c.content, ⟨span, context⟩⟩

theorem content_of_readOutcome {m : Machine} {context : Context} {token : Token} {span : Span}
    {c : Cell} (made : readOutcome m context token span = .ok c) :
    c.stamp = ⟨span, context⟩ ∧ c.content ≠ .plain ∧ ∃ r, c.content = (m.cell r).content := by
  unfold readOutcome at made
  split at made
  · cases made
  · split at made
    · cases made
    · rename_i stored _
      obtain ⟨rfl, firm⟩ := Cell.map_copied_eq_ok made
      exact ⟨rfl, firm, stored, rfl⟩

theorem readOutcome_eq_error {m : Machine} {context : Context} {token : Token} {span : Span}
    {e : Failure} (failed : readOutcome m context token span = .error e) :
    e = .misfit .kind ∨ e = .uncopyable ∨
      e = .runtime ⟨.undefined token.value.display, span, some context⟩ := by
  unfold readOutcome at failed
  split at failed
  · cases failed
    exact .inl rfl
  · split at failed
    · cases failed
      exact .inr (.inr rfl)
    · exact .inr (.inl (Cell.map_copied_eq_error failed))

theorem run_readName (context : Context) (token : Token) (span : Span) (m : Machine) :
    (readName context token span).run m = m.store (readOutcome m context token span) := by
  unfold readName nameOf readOutcome
  cases Name.ofJson? token.value with
  | none => rfl
  | some name =>
    simp only [pure_bind, run_get_bind]
    cases m.lookup context.table name with
    | none => rfl
    | some stored =>
      exact run_bind_store (run_clone stored m) fun c =>
        (run_update_new m c _ _).trans (run_update_new m _ _ _)

theorem run_bindArguments_cons (context : Context) (param : String) (params : List String)
    (arg : Ref) (args : List Ref) (m : Machine) :
    (bindArguments context (param :: params) (arg :: args)).run m =
      match (m.cell arg).copied with
      | .error e => .error e m
      | .ok c => (bindArguments context params args).run
          ((m.alloc ⟨c.content, ⟨c.stamp.span, context⟩⟩).2.bind context.table param
            m.cells.size) := by
  rw [bindArguments, run_bind, run_clone]
  cases (m.cell arg).copied with
  | error e => rfl
  | ok c => exact run_update_new m c _ _

/-- What repeating a text or a literal can come to. -/
inductive Repeated (text : Stamp) (times : Float) (count : Stamp) : Except Failure Cell → Prop
  | result {c : Cell} (context : c.stamp.context = text.context)
      (inert : ∀ f, c.content ≠ .builtin f) (firm : c.content ≠ .plain)
      (bare : c.content.elements = []) : Repeated text times count (.ok c)
  | refused (limit : RepeatLimit) : Repeated text times count
      (.error (.runtime ⟨.cannotRepeat times limit, text.span.join count.span, some text.context⟩))
  | misfit (cause : Misfit) : Repeated text times count (.error (.misfit cause))

theorem makes_fitting_bind {α : Type} {P : Except Failure Cell → Prop} {f : α → EvalM Ref}
    (result : Except Misfit α) (misfit : ∀ cause, P (.error (.misfit cause)))
    (next : ∀ value, (f value).Makes m P) : (fitting result >>= f).Makes m P := by
  cases result with
  | ok value => exact next value
  | error cause => exact .throw (misfit cause)

theorem makes_repeatText (s : String) (text : Stamp) (times : Float) (count : Stamp) :
    (repeatText s text times count).Makes m (Repeated text times count) := by
  unfold repeatText
  split
  · exact .alloc (.result rfl (by simp) (by simp) rfl)
  · exact .fail (.refused _)

theorem makes_repeatLiteral (value : Json) (literal : Stamp) (times : Float) (count : Stamp) :
    (repeatLiteral value literal times count).Makes m (Repeated literal times count) := by
  unfold repeatLiteral
  split
  · split
    · exact .alloc (.result rfl (by simp) (by simp) rfl)
    · exact .fail (.refused _)
  · split
    · exact .fail (.refused _)
    · exact makes_fitting_bind _ .misfit fun _ => .alloc (.result rfl (by simp) (by simp) rfl)

/-- What a binary operation on two cells can come to. Only a product with the number in front makes
    the fault begin at the right operand and end at the left one. -/
inductive Operated (op : Operator) (a b : Cell) : Except Failure Cell → Prop
  | result {c : Cell}
      (context : c.stamp.context = a.stamp.context ∨ c.stamp.context = b.stamp.context)
      (inert : ∀ f, c.content ≠ .builtin f) (firm : c.content ≠ .plain)
      (elements : ∀ r ∈ c.content.elements, r ∈ a.content.elements ∨ r ∈ b.content.elements) :
      Operated op a b (.ok c)
  | across (cause : RuntimeCause) : Operated op a b
      (.error (.runtime ⟨cause, a.stamp.span.join b.stamp.span, some a.stamp.context⟩))
  | behind (cause : RuntimeCause) :
      Operated op a b (.error (.runtime ⟨cause, b.stamp.span, some a.stamp.context⟩))
  | reversed (product : op = .mul) (times : Float) (limit : RepeatLimit)
      (number : a.content = .number times) :
      Operated op a b (.error (.runtime ⟨.cannotRepeat times limit,
        b.stamp.span.join a.stamp.span, some b.stamp.context⟩))
  | misfit (cause : Misfit) : Operated op a b (.error (.misfit cause))

namespace Operated

variable {op : Operator} {a b : Cell}

theorem bare {c : Cell}
    (context : c.stamp.context = a.stamp.context ∨ c.stamp.context = b.stamp.context)
    (inert : ∀ f, c.content ≠ .builtin f) (firm : c.content ≠ .plain)
    (bare : c.content.elements = []) : Operated op a b (.ok c) :=
  .result context inert firm (by simp [bare])

theorem of_repeated_right {times : Float} (number : a.content = .number times)
    {made : Except Failure Cell} (repeated : Repeated b.stamp times a.stamp made) :
    Operated .mul a b made := by
  cases repeated with
  | result context inert firm none => exact .bare (.inr context) inert firm none
  | refused limit => exact .reversed rfl times limit number
  | misfit cause => exact .misfit cause

theorem of_repeated_left {times : Float} {made : Except Failure Cell}
    (repeated : Repeated a.stamp times b.stamp made) : Operated op a b made := by
  cases repeated with
  | result context inert firm none => exact .bare (.inl context) inert firm none
  | refused limit => exact .across _
  | misfit cause => exact .misfit cause

theorem makes_joinLiterals (i j : Json) :
    (joinLiterals i j a.stamp.context).Makes m (Operated op a b) :=
  makes_fitting_bind _ .misfit fun _ =>
    .alloc (.bare (.inl rfl) (Content.inert_ofLiteral _) (Content.firm_ofLiteral _)
      (Content.elements_ofLiteral _))

end Operated

theorem makes_operate (op : Operator) (left right : Ref) (m : Machine) :
    (operate op left right).Makes m (Operated op (m.cell left) (m.cell right)) := by
  show ∃ made, _ ∧ (operate op left right).run m = _
  unfold operate
  simp only [run_cell_bind]
  split
  · split
    · exact Makes.fail (.behind _)
    · exact Makes.alloc (.bare (.inl rfl) (by simp) (by simp) rfl)
  · rename_i number _
    exact (makes_repeatText _ _ _ _).mono fun _ => .of_repeated_right number
  · exact (makes_repeatText _ _ _ _).mono fun _ => .of_repeated_left
  · exact Makes.alloc (.bare (.inl rfl) (by simp) (by simp) rfl)
  · rename_i number _
    exact (makes_repeatLiteral _ _ _ _).mono fun _ => .of_repeated_right number
  · exact (makes_repeatLiteral _ _ _ _).mono fun _ => .of_repeated_left
  · exact Operated.makes_joinLiterals _ _
  · exact Operated.makes_joinLiterals _ _
  · exact Operated.makes_joinLiterals _ _
  · rename_i xs ys first second
    refine Makes.alloc (.result (.inl rfl) (by simp) (by simp) fun r member => ?_)
    rw [first, second]
    exact List.mem_append.mp member
  · exact Makes.fail (.behind _)
  · exact Makes.fail (.across _)

/-- What a binary operation of a tree can come to. -/
inductive Combined (context : Context) (op : Token) (span : Span) (a b : Cell) :
    Except Failure Cell → Prop
  | operated {operator : Operator} {made : Except Failure Cell}
      (known : Operator.ofToken? op = some operator) (operated : Operated operator a b made) :
      Combined context op span a b (made.map (·.atSpan span))
  | unknown : Combined context op span a b
      (.error (.runtime ⟨.unknownOperator, span, some context⟩))
  | misfit (cause : Misfit) : Combined context op span a b (.error (.misfit cause))

namespace Combined

variable {context : Context} {op : Token} {span : Span} {a b : Cell}

theorem of_ok {c : Cell} (combined : Combined context op span a b (.ok c)) :
    ∃ operator d, Operated operator a b (.ok d) ∧ c = d.atSpan span := by
  generalize same : Except.ok c = made at combined
  cases combined with
  | unknown | misfit => cases same
  | @operated operator result _ operated =>
    cases result with
    | error e => cases same
    | ok d =>
      cases same
      exact ⟨operator, d, operated, rfl⟩

theorem of_error {e : Failure} (combined : Combined context op span a b (.error e)) :
    e = .runtime ⟨.unknownOperator, span, some context⟩ ∨ (∃ cause, e = .misfit cause) ∨
      ∃ operator, Operator.ofToken? op = some operator ∧ Operated operator a b (.error e) := by
  generalize same : Except.error e = made at combined
  cases combined with
  | unknown =>
    cases same
    exact .inl rfl
  | misfit cause =>
    cases same
    exact .inr (.inl ⟨cause, rfl⟩)
  | @operated operator result known operated =>
    cases result with
    | ok d => cases same
    | error e' =>
      cases same
      exact .inr (.inr ⟨operator, known, operated⟩)

end Combined

theorem makes_combine (context : Context) (op : Token) (left right : Ref) (span : Span)
    (m : Machine) : (combine context op left right span).Makes m
      (Combined context op span (m.cell left) (m.cell right)) := by
  unfold combine
  split
  · simp only
    split
    · unfold nameOf
      split
      · exact .fail .unknown
      · exact ⟨.error (.misfit .kind), .misfit _, rfl⟩
    · exact .fail .unknown
  · rename_i operator known
    obtain ⟨made, operated, ran⟩ := makes_operate operator left right m
    exact ⟨_, .operated known operated, run_bind_store ran fun c => run_update_new m c _ _⟩

section Apply

variable (context : Context) (op : Token) {operand : Ref} (span : Span) {m : Machine}

theorem run_apply_number {x : Float} {stamp : Stamp}
    (there : m.cells[operand]? = some ⟨.number x, stamp⟩) :
    (apply context op operand span).run m =
      match op.kind with
      | .minus => (m.alloc ⟨.number (-1), .none⟩).2.store
          (.ok ⟨.number (x * -1), ⟨span, stamp.context⟩⟩)
      | .bang => m.store (.ok ⟨.number (Operator.truth (x == 0)), ⟨span, stamp.context⟩⟩)
      | _ => .ok operand (m.place operand span) := by
  have here : m.cell operand = ⟨.number x, stamp⟩ := Machine.cell_of_getElem? there
  rw [apply, run_cell_bind, here]
  cases kind : op.kind with
  | minus =>
    have still : (m.alloc ⟨.number (-1), .none⟩).2.cell operand = ⟨.number x, stamp⟩ :=
      Machine.cell_of_getElem? (Machine.getElem?_alloc_of_there there _)
    have product : (operate .mul operand m.cells.size).run (m.alloc ⟨.number (-1), .none⟩).2 =
        (m.alloc ⟨.number (-1), .none⟩).2.store
          (.ok ⟨.number (x * -1), ⟨.nowhere, stamp.context⟩⟩) := by
      rw [operate, run_cell_bind, run_cell_bind, still, Machine.cell_alloc_self]
      rfl
    exact run_bind_store (f := fun r => do setSpan r span; return r) product
      fun c => run_update_new _ c _ _
  | bang =>
    have negated : (negate operand).run m =
        m.store (.ok ⟨.number (Operator.truth (x == 0)), ⟨.nowhere, stamp.context⟩⟩) := by
      rw [negate, run_cell_bind, here]
      rfl
    exact run_bind_store (f := fun r => do setSpan r span; return r) negated
      fun c => run_update_new m c _ _
  | _ => rfl

theorem run_apply_other (other : ∀ x, (m.cell operand).content ≠ .number x) :
    (apply context op operand span).run m =
      .error (.runtime ⟨.notANumber, span, some context⟩) m := by
  rw [apply, run_cell_bind]
  split
  · exact absurd ‹_› (other _)
  · rfl

/-- All that a sign or a negation can do: a minus and a bang give a new number, any other sign
    places its operand anew, and what is no number is refused. -/
@[elab_as_elim]
theorem run_apply_cases {motive : EStateM.Result Failure Machine Ref → Prop} {c : Cell}
    (there : m.cells[operand]? = some c)
    (minus : ∀ x, op.kind = .minus → c.content = .number x →
      motive ((m.alloc ⟨.number (-1), .none⟩).2.store
        (.ok ⟨.number (x * -1), ⟨span, c.stamp.context⟩⟩)))
    (bang : ∀ x, op.kind = .bang → c.content = .number x →
      motive (m.store (.ok ⟨.number (Operator.truth (x == 0)), ⟨span, c.stamp.context⟩⟩)))
    (plus : ∀ x, op.kind ≠ .minus → op.kind ≠ .bang → c.content = .number x →
      motive (.ok operand (m.place operand span)))
    (other : (∀ x, c.content ≠ .number x) →
      motive (.error (.runtime ⟨.notANumber, span, some context⟩) m)) :
    motive ((apply context op operand span).run m) := by
  obtain ⟨content, stamp⟩ := c
  by_cases number : ∃ x, content = .number x
  · obtain ⟨x, rfl⟩ := number
    rw [run_apply_number context op span there]
    split
    · exact minus x ‹_› rfl
    · exact bang x ‹_› rfl
    · exact plus x ‹_› ‹_› rfl
  · have refused : ∀ x, content ≠ .number x := fun x is => number ⟨x, is⟩
    rw [run_apply_other context op span (by rwa [Machine.cell_of_getElem? there])]
    exact other refused

/-- A sign or a negation gives a number at its own place, and changes at most cells. -/
theorem ends_apply (existed : operand < m.cells.size) : (apply context op operand span).Ends m
    (fun r m' => (∃ cells, m' = { m with cells := cells }) ∧
      ∃ x owner, m'.cells[r]? = some ⟨.number x, ⟨span, owner⟩⟩)
    fun e m' => m' = m ∧ e = .runtime ⟨.notANumber, span, some context⟩ := by
  have there := Machine.getElem?_of_lt existed
  unfold Ends
  refine run_apply_cases context op span there ?minus ?bang ?plus ?other
  case minus | bang =>
    intro x _ _
    exact ⟨⟨_, rfl⟩, _, _, Machine.getElem?_alloc_self _ _⟩
  case plus =>
    intro x _ _ number
    refine ⟨⟨_, rfl⟩, x, (m.cell operand).stamp.context, ?_⟩
    rw [Machine.getElem?_place_self there, ← number]
    rfl
  case other => exact fun _ => ⟨rfl, rfl⟩

end Apply

end EvalM

end SceneScript
