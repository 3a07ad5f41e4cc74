import SceneScript.Proofs.Parse.Shape
import SceneScript.Proofs.Value.Datum
import SceneScript.Proofs.Value.References

/-!
Two runs side by side. Where the variables that a program names amount to the same, so does all that
it does: whatever else is bound and wherever the values come from, both runs print the same, make
the same requests and end alike.
-/

namespace SceneScript

namespace Context

/-- The names of the activations and the places from which they were called. -/
def frames (c : Context) : List (String × Option Place) :=
  c.activations.map fun a => (a.name, a.calledAt)

theorem frames_call (c : Context) (name : String) (site : Place) :
    (c.call name site).frames = (name, some site) :: c.frames := rfl

theorem traceLines_eq {as bs : List Activation} (place : Place)
    (same : as.map (fun a => (a.name, a.calledAt)) = bs.map fun a => (a.name, a.calledAt)) :
    traceLines (placedFrom place as) = traceLines (placedFrom place bs) := by
  induction as generalizing bs place with
  | nil =>
    cases bs with
    | nil => rfl
    | cons => simp at same
  | cons a as ih =>
    cases bs with
    | nil => simp at same
    | cons b bs =>
      simp only [List.map_cons, List.cons.injEq, Prod.mk.injEq] at same
      obtain ⟨⟨name, calledAt⟩, others⟩ := same
      rw [placedFrom, placedFrom, traceLines, traceLines, name, calledAt]
      cases b.calledAt with
      | none => rfl
      | some site => simp only [ih site others]

/-- A traceback tells the frames and nothing else. -/
theorem traceback_eq {c c' : Context} (same : c.frames = c'.frames) (place : Place) :
    traceback (some c) place = traceback (some c') place := by
  have lines := traceLines_eq place same
  simp only [traceback, Option.map_some, Option.getD_some, placed, lines]

end Context

namespace Failure

/-- Faults of a program are alike when the same is reported about them; other failures only if they
    are the same. -/
def Alike : Failure → Failure → Prop
  | .runtime f, .runtime g => f.report = g.report
  | e, e' => e = e'

theorem Alike.refl (e : Failure) : e.Alike e := by
  cases e <;> rfl

theorem alike_runtime {c c' : Context} (cause : RuntimeCause) (span : Span)
    (same : c.frames = c'.frames) :
    Alike (.runtime ⟨cause, span, some c⟩) (.runtime ⟨cause, span, some c'⟩) := by
  simp only [Alike, RuntimeFault.report, Context.traceback_eq same]

end Failure

namespace Event

def request? : Event → Option SceneRequest
  | .accepted r => some r
  | _ => none

end Event

namespace Machine

variable {m m' m'' : Machine}

/-- The requests that the log says were accepted. -/
def requests (m : Machine) : List SceneRequest := (m.events.filterMap Event.request?).reverse

/-- At most, places have changed and cells have been made. -/
structure Quiet (m m' : Machine) : Prop where
  contents : m.SameContents m'
  tables : m'.tables = m.tables
  output : m'.output = m.output
  scene : m'.scene = m.scene
  requests : m'.requests = m.requests

namespace Quiet

theorem alloc (m : Machine) (c : Cell) : m.Quiet (m.alloc c).2 :=
  ⟨((Extends.refl m).alloc c).sameContents, rfl, rfl, rfl, rfl⟩

theorem place (m : Machine) (r : Ref) (span : Span) : m.Quiet (m.place r span) :=
  ⟨m.sameContents_place r span, rfl, rfl, rfl, rfl⟩

theorem noted (m : Machine) {e : Event} (note : e.request? = none) :
    m.Quiet { m with events := e :: m.events } := by
  refine ⟨(Extends.of_cells rfl).sameContents, rfl, rfl, rfl, ?_⟩
  unfold Machine.requests
  rw [List.filterMap_cons_none note]

end Quiet

theorem lookup_congr (tables : m'.tables = m.tables) (id : TableId) (name : Name) :
    m'.lookup id name = m.lookup id name := by
  have same (id : TableId) : m'.table id = m.table id := by rw [table, table, tables]
  induction id using Nat.strongRecOn with
  | ind id ih =>
    rw [lookup, lookup, same]
    cases (m.table id).own? name with
    | some value => rfl
    | none =>
      cases (m.table id).parent with
      | none => rfl
      | some parent =>
        by_cases behind : parent < id
        · simp only [behind, if_true, ih parent behind]
        · simp only [behind, if_false]

/-- Contents that amount to one datum, each in its own machine. -/
inductive Paired (m m' : Machine) : Content → Content → Datum → Prop
  | number (x : Float) : Paired m m' (.number x) (.number x) (.number x)
  | text (s : String) : Paired m m' (.text s) (.text s) (.text s)
  | list {rs rs' : List Ref} {ds : List Datum} (all : m.AmountAll rs ds)
      (all' : m'.AmountAll rs' ds) : Paired m m' (.list rs) (.list rs') (.list ds)
  | builtin (b : Builtin) : Paired m m' (.builtin b) (.builtin b) (.builtin b)

theorem Amounts.paired {content content' : Content} {d : Datum} (amounts : m.Amounts content d)
    (amounts' : m'.Amounts content' d) : m.Paired m' content content' d := by
  cases d with
  | number x =>
    cases amounts
    cases amounts'
    exact .number x
  | text s =>
    cases amounts
    cases amounts'
    exact .text s
  | list ds =>
    obtain ⟨rs, rfl, all⟩ := amounts
    obtain ⟨rs', rfl, all'⟩ := amounts'
    exact .list all all'
  | builtin b =>
    obtain ⟨rfl, -⟩ := amounts
    obtain ⟨rfl, -⟩ := amounts'
    exact .builtin b

/-- Both are nothing, or values that amount to the same. -/
def Equivalent (m : Machine) (value : Option Ref) (m' : Machine) (value' : Option Ref) : Prop :=
  (value = none ∧ value' = none) ∨
    ∃ r r' d, value = some r ∧ value' = some r' ∧ m.Stands r d ∧ m'.Stands r' d

theorem Equivalent.later {n n' : Machine} {value value' : Option Ref} (same : m.SameContents n)
    (same' : m'.SameContents n') (equivalent : m.Equivalent value m' value') :
    n.Equivalent value n' value' := by
  refine equivalent.imp_right ?_
  rintro ⟨r, r', d, found, found', stands, stands'⟩
  exact ⟨r, r', d, found, found', stands.later same, stands'.later same'⟩

end Machine

/-- Two runs in contexts with the same frames, with the machines that they start from. -/
structure Runs where
  before₁ : Machine
  before₂ : Machine
  context₁ : Context
  context₂ : Context
  frames : context₁.frames = context₂.frames

namespace Runs

open EvalM

variable {α β α' β' : Type} {p : Runs} {names : Name → Prop} {m₁ m₂ m₁' m₂' : Machine}

/-- How far the runs agree: on what the names amount to, on the scene, and on what they have
    printed and requested since they started. -/
structure Agree (p : Runs) (names : Name → Prop) (m₁ m₂ : Machine) : Prop where
  table₁ : p.context₁.table < m₁.tables.size
  table₂ : p.context₂.table < m₂.tables.size
  null₁ : m₁.Stands (Machine.constant .null) (.number 0)
  null₂ : m₂.Stands (Machine.constant .null) (.number 0)
  named : ∀ name, names name → Machine.Equivalent m₁ (m₁.lookup p.context₁.table name) m₂
    (m₂.lookup p.context₂.table name)
  scene : m₁.scene = m₂.scene
  output : ∃ text, m₁.output = p.before₁.output ++ text ∧ m₂.output = p.before₂.output ++ text
  requests : ∃ made, m₁.requests = p.before₁.requests ++ made ∧
    m₂.requests = p.before₂.requests ++ made

namespace Agree

theorem mono {fewer : Name → Prop} (agree : p.Agree names m₁ m₂)
    (less : ∀ name, fewer name → names name) : p.Agree fewer m₁ m₂ :=
  { agree with named := fun name is => agree.named name (less name is) }

/-- Nothing but the output, the scene and the log has changed for the names. -/
theorem renew (agree : p.Agree names m₁ m₂) (contents₁ : m₁.SameContents m₁')
    (contents₂ : m₂.SameContents m₂') (tables₁ : m₁'.tables = m₁.tables)
    (tables₂ : m₂'.tables = m₂.tables) (scene : m₁'.scene = m₂'.scene)
    (output : ∃ text, m₁'.output = p.before₁.output ++ text ∧
      m₂'.output = p.before₂.output ++ text)
    (requests : ∃ made, m₁'.requests = p.before₁.requests ++ made ∧
      m₂'.requests = p.before₂.requests ++ made) : p.Agree names m₁' m₂' where
  table₁ := by
    rw [tables₁]
    exact agree.table₁
  table₂ := by
    rw [tables₂]
    exact agree.table₂
  null₁ := agree.null₁.later contents₁
  null₂ := agree.null₂.later contents₂
  named name is := by
    rw [Machine.lookup_congr tables₁, Machine.lookup_congr tables₂]
    exact (agree.named name is).later contents₁ contents₂
  scene := scene
  output := output
  requests := requests

theorem quiet (agree : p.Agree names m₁ m₂) (quiet₁ : m₁.Quiet m₁') (quiet₂ : m₂.Quiet m₂') :
    p.Agree names m₁' m₂' := by
  refine agree.renew quiet₁.contents quiet₂.contents quiet₁.tables quiet₂.tables ?_ ?_ ?_
  · rw [quiet₁.scene, quiet₂.scene, agree.scene]
  · rw [quiet₁.output, quiet₂.output]
    exact agree.output
  · rw [quiet₁.requests, quiet₂.requests]
    exact agree.requests

theorem print (agree : p.Agree names m₁ m₂) (line : String) :
    p.Agree names { m₁ with output := m₁.output ++ line }
      { m₂ with output := m₂.output ++ line } := by
  refine agree.renew (Machine.Extends.of_cells rfl).sameContents
    (Machine.Extends.of_cells rfl).sameContents rfl rfl agree.scene ?_ agree.requests
  obtain ⟨text, output₁, output₂⟩ := agree.output
  refine ⟨text ++ line, ?_, ?_⟩
  · rw [output₁, String.append_assoc]
  · rw [output₂, String.append_assoc]

theorem accept (agree : p.Agree names m₁ m₂) (r : SceneRequest) :
    p.Agree names { m₁ with scene := m₁.scene.accept r, events := .accepted r :: m₁.events }
      { m₂ with scene := m₂.scene.accept r, events := .accepted r :: m₂.events } := by
  refine agree.renew (Machine.Extends.of_cells rfl).sameContents
    (Machine.Extends.of_cells rfl).sameContents rfl rfl (by rw [agree.scene]) agree.output ?_
  have logged (m : Machine) : Machine.requests
      { m with scene := m.scene.accept r, events := .accepted r :: m.events } =
        m.requests ++ [r] := by
    simp [Machine.requests, Event.request?]
  obtain ⟨made, requests₁, requests₂⟩ := agree.requests
  refine ⟨made ++ [r], ?_, ?_⟩
  · rw [logged, requests₁, List.append_assoc]
  · rw [logged, requests₂, List.append_assoc]

/-- Values that amount to the same are bound to a name, which is one more to agree on. -/
theorem bind (agree : p.Agree names m₁ m₂) (name : Name) {r₁ r₂ : Ref} {d : Datum}
    (stands₁ : m₁.Stands r₁ d) (stands₂ : m₂.Stands r₂ d) :
    p.Agree (fun other => other = name ∨ names other) (m₁.bind p.context₁.table name r₁)
      (m₂.bind p.context₂.table name r₂) where
  table₁ := by
    rw [Machine.bind, Array.size_modify]
    exact agree.table₁
  table₂ := by
    rw [Machine.bind, Array.size_modify]
    exact agree.table₂
  null₁ := agree.null₁
  null₂ := agree.null₂
  named other is := by
    have kept {m : Machine} (id : TableId) (r : Ref) : m.SameContents (m.bind id name r) :=
      (Machine.Extends.of_cells rfl).sameContents
    rw [Machine.lookup_bind agree.table₁, Machine.lookup_bind agree.table₂]
    refine Machine.Equivalent.later (kept _ r₁) (kept _ r₂) ?_
    by_cases same : other = name
    · rw [if_pos same, if_pos same]
      exact .inr ⟨r₁, r₂, d, rfl, rfl, stands₁, stands₂⟩
    · rw [if_neg same, if_neg same]
      exact agree.named other (is.resolve_left same)
  scene := agree.scene
  output := agree.output
  requests := agree.requests

end Agree

/-- From there, both evaluations succeed, with results as described, or both fail alike. -/
inductive Couple (p : Runs) (names : Name → Prop) (x₁ : EvalM α) (x₂ : EvalM β) (m₁ m₂ : Machine)
    (done : α → β → Machine → Machine → Prop) : Prop
  | ok {a₁ : α} {a₂ : β} {m₁' m₂' : Machine} (ran₁ : x₁.run m₁ = .ok a₁ m₁')
      (ran₂ : x₂.run m₂ = .ok a₂ m₂') (agree : p.Agree names m₁' m₂') (holds : done a₁ a₂ m₁' m₂')
  | error {e₁ e₂ : Failure} {m₁' m₂' : Machine} (ran₁ : x₁.run m₁ = .error e₁ m₁')
      (ran₂ : x₂.run m₂ = .error e₂ m₂') (agree : p.Agree names m₁' m₂') (alike : e₁.Alike e₂)

namespace Couple

variable {x₁ : EvalM α} {x₂ : EvalM β} {done done' : α → β → Machine → Machine → Prop}

theorem bind {f₁ : α → EvalM α'} {f₂ : β → EvalM β'}
    {next : α' → β' → Machine → Machine → Prop} (first : p.Couple names x₁ x₂ m₁ m₂ done)
    (second : ∀ a₁ a₂ m₁' m₂', p.Agree names m₁' m₂' → done a₁ a₂ m₁' m₂' →
      p.Couple names (f₁ a₁) (f₂ a₂) m₁' m₂' next) :
    p.Couple names (x₁ >>= f₁) (x₂ >>= f₂) m₁ m₂ next := by
  cases first with
  | error ran₁ ran₂ agree alike =>
    refine .error ?_ ?_ agree alike
    · rw [run_bind, ran₁]
    · rw [run_bind, ran₂]
  | @ok a₁ a₂ m₁' m₂' ran₁ ran₂ agree holds =>
    cases second a₁ a₂ m₁' m₂' agree holds with
    | ok later₁ later₂ agree holds =>
      refine .ok ?_ ?_ agree holds
      · rw [run_bind, ran₁]
        exact later₁
      · rw [run_bind, ran₂]
        exact later₂
    | error later₁ later₂ agree alike =>
      refine .error ?_ ?_ agree alike
      · rw [run_bind, ran₁]
        exact later₁
      · rw [run_bind, ran₂]
        exact later₂

theorem mono {fewer : Name → Prop} (couple : p.Couple names x₁ x₂ m₁ m₂ done)
    (less : ∀ name, fewer name → names name)
    (more : ∀ a₁ a₂ m₁' m₂', done a₁ a₂ m₁' m₂' → done' a₁ a₂ m₁' m₂') :
    p.Couple fewer x₁ x₂ m₁ m₂ done' := by
  cases couple with
  | ok ran₁ ran₂ agree holds => exact .ok ran₁ ran₂ (agree.mono less) (more _ _ _ _ holds)
  | error ran₁ ran₂ agree alike => exact .error ran₁ ran₂ (agree.mono less) alike

theorem pure {a₁ : α} {a₂ : β} (agree : p.Agree names m₁ m₂) (holds : done a₁ a₂ m₁ m₂) :
    p.Couple names (Pure.pure a₁) (Pure.pure a₂) m₁ m₂ done := .ok rfl rfl agree holds

theorem throw {e₁ e₂ : Failure} (agree : p.Agree names m₁ m₂) (alike : e₁.Alike e₂) :
    p.Couple names (MonadExcept.throw e₁ : EvalM α) (MonadExcept.throw e₂ : EvalM β) m₁ m₂ done :=
  .error rfl rfl agree alike

theorem fail {c₁ c₂ : Context} (agree : p.Agree names m₁ m₂) (cause : RuntimeCause) (span : Span)
    (frames : c₁.frames = c₂.frames) :
    p.Couple names (EvalM.fail cause span c₁ : EvalM α) (EvalM.fail cause span c₂ : EvalM β)
      m₁ m₂ done :=
  throw agree (Failure.alike_runtime cause span frames)

theorem of_runs {y₁ : EvalM α} {y₂ : EvalM β} (same₁ : x₁.run m₁ = y₁.run m₁')
    (same₂ : x₂.run m₂ = y₂.run m₂') (couple : p.Couple names y₁ y₂ m₁' m₂' done) :
    p.Couple names x₁ x₂ m₁ m₂ done := by
  cases couple with
  | ok ran₁ ran₂ agree holds => exact .ok (same₁.trans ran₁) (same₂.trans ran₂) agree holds
  | error ran₁ ran₂ agree alike => exact .error (same₁.trans ran₁) (same₂.trans ran₂) agree alike

theorem get_bind {f₁ : Machine → EvalM α} {f₂ : Machine → EvalM β}
    (next : p.Couple names (f₁ m₁) (f₂ m₂) m₁ m₂ done) :
    p.Couple names (get >>= f₁) (get >>= f₂) m₁ m₂ done :=
  of_runs (run_get_bind f₁ m₁) (run_get_bind f₂ m₂) next

/-- The same note in both logs. -/
theorem note {f₁ : Unit → EvalM α} {f₂ : Unit → EvalM β} {e : Event} (quiet : e.request? = none)
    (agree : p.Agree names m₁ m₂)
    (next : ∀ m₁' m₂', p.Agree names m₁' m₂' → p.Couple names (f₁ ()) (f₂ ()) m₁' m₂' done) :
    p.Couple names (record e >>= f₁) (record e >>= f₂) m₁ m₂ done := by
  have noted := agree.quiet (.noted m₁ quiet) (.noted m₂ quiet)
  exact bind (.ok rfl rfl noted trivial) fun _ _ m₁' m₂' agree (_ : True) => next m₁' m₂' agree

end Couple

/-- Cells that amount to the same, made at the same place and each in its own run's context. -/
def Like (p : Runs) (m₁ m₂ : Machine) (c₁ c₂ : Cell) : Prop :=
  ∃ d span, m₁.Amounts c₁.content d ∧ m₂.Amounts c₂.content d ∧
    c₁.stamp = ⟨span, p.context₁⟩ ∧ c₂.stamp = ⟨span, p.context₂⟩

/-- Values in like cells. -/
def Twins (p : Runs) (r₁ r₂ : Ref) (m₁ m₂ : Machine) : Prop :=
  ∃ c₁ c₂ : Cell, m₁.cells[r₁]? = some c₁ ∧ m₂.cells[r₂]? = some c₂ ∧ p.Like m₁ m₂ c₁ c₂

/-- Values that amount to the same. -/
def Equals (r₁ r₂ : Ref) (m₁ m₂ : Machine) : Prop := ∃ d, m₁.Stands r₁ d ∧ m₂.Stands r₂ d

theorem Like.later {c₁ c₂ : Cell} (like : p.Like m₁ m₂ c₁ c₂) (same₁ : m₁.SameContents m₁')
    (same₂ : m₂.SameContents m₂') : p.Like m₁' m₂' c₁ c₂ := by
  obtain ⟨d, span, amounts₁, amounts₂, stamps⟩ := like
  exact ⟨d, span, amounts₁.later same₁ d, amounts₂.later same₂ d, stamps⟩

theorem Like.atSpan {c₁ c₂ : Cell} (like : p.Like m₁ m₂ c₁ c₂) (span : Span) :
    p.Like m₁ m₂ (c₁.atSpan span) (c₂.atSpan span) := by
  obtain ⟨d, _, amounts₁, amounts₂, stamp₁, stamp₂⟩ := like
  refine ⟨d, span, amounts₁, amounts₂, ?_, ?_⟩
  · simp only [Cell.atSpan, stamp₁]
  · simp only [Cell.atSpan, stamp₂]

theorem Twins.later {r₁ r₂ : Ref} (twins : p.Twins r₁ r₂ m₁ m₂) (more₁ : m₁.Extends m₁')
    (more₂ : m₂.Extends m₂') : p.Twins r₁ r₂ m₁' m₂' := by
  obtain ⟨c₁, c₂, there₁, there₂, like⟩ := twins
  exact ⟨c₁, c₂, more₁ _ _ there₁, more₂ _ _ there₂,
    like.later more₁.sameContents more₂.sameContents⟩

theorem Twins.equals {r₁ r₂ : Ref} (twins : p.Twins r₁ r₂ m₁ m₂) : Equals r₁ r₂ m₁ m₂ := by
  obtain ⟨c₁, c₂, there₁, there₂, d, _, amounts₁, amounts₂, -⟩ := twins
  exact ⟨d, ⟨c₁, there₁, amounts₁⟩, ⟨c₂, there₂, amounts₂⟩⟩

/-- Like cells are made, or both fail alike. -/
inductive Outcomes (p : Runs) (m₁ m₂ : Machine) : Except Failure Cell → Except Failure Cell → Prop
  | ok {c₁ c₂ : Cell} (like : p.Like m₁ m₂ c₁ c₂) : Outcomes p m₁ m₂ (.ok c₁) (.ok c₂)
  | error {e₁ e₂ : Failure} (alike : e₁.Alike e₂) : Outcomes p m₁ m₂ (.error e₁) (.error e₂)

/-- Both evaluations make cells, with like outcomes. -/
def MakeLike (p : Runs) (x₁ x₂ : EvalM Ref) (m₁ m₂ : Machine) : Prop :=
  ∃ made₁ made₂, x₁.run m₁ = m₁.store made₁ ∧ x₂.run m₂ = m₂.store made₂ ∧
    p.Outcomes m₁ m₂ made₁ made₂

namespace MakeLike

theorem fail (p : Runs) (m₁ m₂ : Machine) (cause : RuntimeCause) (span : Span) :
    p.MakeLike (EvalM.fail cause span p.context₁) (EvalM.fail cause span p.context₂) m₁ m₂ :=
  ⟨_, _, rfl, rfl, .error (Failure.alike_runtime cause span p.frames)⟩

theorem alloc {content₁ content₂ : Content} {d : Datum} (amounts₁ : m₁.Amounts content₁ d)
    (amounts₂ : m₂.Amounts content₂ d) (span : Span) :
    p.MakeLike (EvalM.alloc content₁ ⟨span, p.context₁⟩)
      (EvalM.alloc content₂ ⟨span, p.context₂⟩) m₁ m₂ :=
  ⟨_, _, rfl, rfl, .ok ⟨d, span, amounts₁, amounts₂, rfl, rfl⟩⟩

theorem twins_alloc {c₁ c₂ : Cell} (like : p.Like m₁ m₂ c₁ c₂) :
    p.Twins m₁.cells.size m₂.cells.size (m₁.alloc c₁).2 (m₂.alloc c₂).2 := by
  have later := like.later (Machine.Quiet.alloc m₁ c₁).contents (Machine.Quiet.alloc m₂ c₂).contents
  exact ⟨c₁, c₂, Machine.getElem?_alloc_self m₁ c₁, Machine.getElem?_alloc_self m₂ c₂, later⟩

theorem couple {x₁ x₂ : EvalM Ref} (agree : p.Agree names m₁ m₂)
    (makes : p.MakeLike x₁ x₂ m₁ m₂) : p.Couple names x₁ x₂ m₁ m₂ p.Twins := by
  obtain ⟨made₁, made₂, ran₁, ran₂, outcomes⟩ := makes
  cases outcomes with
  | error alike => exact .error ran₁ ran₂ agree alike
  | ok like => exact .ok ran₁ ran₂ (agree.quiet (.alloc _ _) (.alloc _ _)) (twins_alloc like)

theorem repeatText (s : String) (text : Span) (times : Float) (count : Span) :
    p.MakeLike (EvalM.repeatText s ⟨text, p.context₁⟩ times ⟨count, p.context₁⟩)
      (EvalM.repeatText s ⟨text, p.context₂⟩ times ⟨count, p.context₂⟩) m₁ m₂ := by
  unfold EvalM.repeatText
  cases Repetition.text s times with
  | ok result => exact alloc (d := .text result) rfl rfl .nowhere
  | error limit => exact fail p m₁ m₂ _ _

/-- Operations on values that amount to the same come to the same. -/
theorem operate (op : Operator) {l₁ r₁ l₂ r₂ : Ref} (left : p.Twins l₁ l₂ m₁ m₂)
    (right : p.Twins r₁ r₂ m₁ m₂) :
    p.MakeLike (EvalM.operate op l₁ r₁) (EvalM.operate op l₂ r₂) m₁ m₂ := by
  obtain ⟨⟨a₁, _⟩, ⟨a₂, _⟩, thereA₁, thereA₂, d, span, amountsA₁, amountsA₂, rfl, rfl⟩ := left
  obtain ⟨⟨b₁, _⟩, ⟨b₂, _⟩, thereB₁, thereB₂, e, span', amountsB₁, amountsB₂, rfl, rfl⟩ := right
  unfold MakeLike EvalM.operate
  simp only [run_cell_bind, Machine.cell_of_getElem? thereA₁, Machine.cell_of_getElem? thereA₂,
    Machine.cell_of_getElem? thereB₁, Machine.cell_of_getElem? thereB₂]
  have illegal : p.MakeLike (EvalM.illegal ⟨a₁, ⟨span, p.context₁⟩⟩ ⟨b₁, ⟨span', p.context₁⟩⟩)
      (EvalM.illegal ⟨a₂, ⟨span, p.context₂⟩⟩ ⟨b₂, ⟨span', p.context₂⟩⟩) m₁ m₂ :=
    fail p m₁ m₂ _ _
  -- The data give the contents in both runs at once, apart from the elements of lists.
  cases amountsA₁.paired amountsA₂ with
  | number x =>
    cases amountsB₁.paired amountsB₂ with
    | number y =>
      by_cases zero : op = .div ∧ (y == 0) = true
      · simp only [if_pos zero]
        exact fail p m₁ m₂ _ _
      · simp only [if_neg zero]
        exact alloc (by rw [Machine.Amounts]) (by rw [Machine.Amounts]) .nowhere
    | text s =>
      cases op with
      | mul => exact repeatText s span' x span
      | _ => exact illegal
    | list | builtin => exact illegal
  | text s =>
    cases amountsB₁.paired amountsB₂ with
    | number x =>
      cases op with
      | mul => exact repeatText s span x span'
      | _ => exact illegal
    | text t =>
      cases op with
      | add => exact alloc (d := .text (s ++ t)) rfl rfl .nowhere
      | _ => exact illegal
    | list | builtin => exact illegal
  | @list _ _ ds allA₁ allA₂ =>
    cases amountsB₁.paired amountsB₂ with
    | @list _ _ es allB₁ allB₂ =>
      cases op with
      | add =>
        exact alloc (d := .list (ds ++ es)) ⟨_, rfl, allA₁.append allB₁⟩
          ⟨_, rfl, allA₂.append allB₂⟩ span
      | _ => exact illegal
    | number | text | builtin =>
      cases op with
      | add => exact fail p m₁ m₂ _ _
      | _ => exact illegal
  | builtin b => exact illegal

theorem combine (op : Token) {l₁ r₁ l₂ r₂ : Ref} (left : p.Twins l₁ l₂ m₁ m₂)
    (right : p.Twins r₁ r₂ m₁ m₂) (span : Span) :
    p.MakeLike (EvalM.combine p.context₁ op l₁ r₁ span) (EvalM.combine p.context₂ op l₂ r₂ span)
      m₁ m₂ := by
  unfold EvalM.combine
  cases Operator.ofToken? op with
  | none =>
    simp only
    split
    · unfold nameOf
      cases Name.ofJson? op.value with
      | some name => exact fail p m₁ m₂ _ _
      | none => exact ⟨.error (.misfit .kind), .error (.misfit .kind), rfl, rfl, .error rfl⟩
    · exact fail p m₁ m₂ _ _
  | some operator =>
    obtain ⟨made₁, made₂, ran₁, ran₂, outcomes⟩ := operate operator left right
    refine ⟨made₁.map (·.atSpan span), made₂.map (·.atSpan span),
      run_bind_store ran₁ fun c => run_update_new m₁ c _ _,
      run_bind_store ran₂ fun c => run_update_new m₂ c _ _, ?_⟩
    cases outcomes with
    | ok like => exact .ok (like.atSpan span)
    | error alike => exact .error alike

theorem prepareCallee {f₁ f₂ : Ref} (twins : p.Twins f₁ f₂ m₁ m₂) (span : Span) :
    p.MakeLike (EvalM.prepareCallee f₁ span) (EvalM.prepareCallee f₂ span) m₁ m₂ := by
  obtain ⟨c₁, c₂, there₁, there₂, like⟩ := twins
  have at_span := like.atSpan span
  obtain ⟨d, _, amounts₁, amounts₂, -⟩ := like
  refine ⟨_, _, run_prepareCallee f₁ span m₁, run_prepareCallee f₂ span m₂, ?_⟩
  rw [Machine.cell_of_getElem? there₁, Machine.cell_of_getElem? there₂,
    Cell.copied_of_firm amounts₁.firm, Cell.copied_of_firm amounts₂.firm]
  exact .ok at_span

/-- Copies of values that amount to the same, stamped anew. -/
theorem outcomes_copied {r₁ r₂ : Ref} (equals : Equals r₁ r₂ m₁ m₂) (span : Span) :
    p.Outcomes m₁ m₂ ((m₁.cell r₁).copied.map fun c => ⟨c.content, ⟨span, p.context₁⟩⟩)
      ((m₂.cell r₂).copied.map fun c => ⟨c.content, ⟨span, p.context₂⟩⟩) := by
  obtain ⟨d, ⟨c₁, there₁, amounts₁⟩, ⟨c₂, there₂, amounts₂⟩⟩ := equals
  rw [Machine.cell_of_getElem? there₁, Machine.cell_of_getElem? there₂,
    Cell.copied_of_firm amounts₁.firm, Cell.copied_of_firm amounts₂.firm]
  exact .ok ⟨d, span, amounts₁, amounts₂, rfl, rfl⟩

theorem takeResult {r₁ r₂ : Ref} (equals : Equals r₁ r₂ m₁ m₂) (span : Span) :
    p.MakeLike (EvalM.takeResult p.context₁ r₁ span) (EvalM.takeResult p.context₂ r₂ span) m₁ m₂ :=
  ⟨_, _, run_takeResult _ r₁ span m₁, run_takeResult _ r₂ span m₂, outcomes_copied equals span⟩

theorem readName (agree : p.Agree names m₁ m₂) {token : Token}
    (known : ∀ name, Name.ofJson? token.value = some name → names name) (span : Span) :
    p.MakeLike (EvalM.readName p.context₁ token span) (EvalM.readName p.context₂ token span)
      m₁ m₂ := by
  refine ⟨_, _, run_readName _ token span m₁, run_readName _ token span m₂, ?_⟩
  unfold readOutcome
  cases named : Name.ofJson? token.value with
  | none => exact .error rfl
  | some name =>
    rcases agree.named name (known name named) with ⟨none₁, none₂⟩ |
      ⟨r₁, r₂, d, found₁, found₂, stands₁, stands₂⟩
    · simp only [none₁, none₂]
      exact .error (Failure.alike_runtime _ span p.frames)
    · simp only [found₁, found₂]
      exact outcomes_copied ⟨d, stands₁, stands₂⟩ span

end MakeLike

theorem couple_apply (agree : p.Agree names m₁ m₂) (op : Token) {r₁ r₂ : Ref}
    (twins : p.Twins r₁ r₂ m₁ m₂) (span : Span) :
    p.Couple names (apply p.context₁ op r₁ span) (apply p.context₂ op r₂ span) m₁ m₂ p.Twins := by
  obtain ⟨⟨a₁, _⟩, ⟨a₂, _⟩, there₁, there₂, d, place, amounts₁, amounts₂, rfl, rfl⟩ := twins
  by_cases number : ∃ x, d = .number x
  · obtain ⟨x, rfl⟩ := number
    cases amounts₁
    cases amounts₂
    have ran₁ := run_apply_number p.context₁ op span there₁
    have ran₂ := run_apply_number p.context₂ op span there₂
    have like (m₁ m₂ : Machine) (y : Float) : p.Like m₁ m₂ ⟨.number y, ⟨span, p.context₁⟩⟩
        ⟨.number y, ⟨span, p.context₂⟩⟩ := ⟨.number y, span, rfl, rfl, rfl, rfl⟩
    have made {m₁ m₂ : Machine} (agree : p.Agree names m₁ m₂) (c₁ c₂ : Cell) :
        p.Agree names (m₁.alloc c₁).2 (m₂.alloc c₂).2 := agree.quiet (.alloc m₁ c₁) (.alloc m₂ c₂)
    cases kind : op.kind with
    | minus =>
      rw [kind] at ran₁ ran₂
      exact .ok ran₁ ran₂ (made (made agree _ _) _ _) (MakeLike.twins_alloc (like _ _ _))
    | bang =>
      rw [kind] at ran₁ ran₂
      exact .ok ran₁ ran₂ (made agree _ _) (MakeLike.twins_alloc (like _ _ _))
    | _ =>
      rw [kind] at ran₁ ran₂
      refine .ok ran₁ ran₂ (agree.quiet (.place m₁ r₁ span) (.place m₂ r₂ span)) ?_
      exact ⟨_, _, Machine.getElem?_place_self there₁ span, Machine.getElem?_place_self there₂ span,
        like _ _ x⟩
  · refine .error (run_apply_other _ op span fun x is => ?_)
      (run_apply_other _ op span fun x is => ?_) agree (Failure.alike_runtime _ span p.frames)
    · rw [Machine.cell_of_getElem? there₁] at is
      exact number ⟨x, amounts₁.unique d (.number x) is⟩
    · rw [Machine.cell_of_getElem? there₂] at is
      exact number ⟨x, amounts₂.unique d (.number x) is⟩

end Runs

end SceneScript
