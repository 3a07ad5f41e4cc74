import Mathlib.Logic.Relation
import SceneScript.Proofs.Eval.Activation
import SceneScript.Proofs.Eval.Safety
import SceneScript.Proofs.Value.Datum

/-!
What values rest on. Values are numbered in the order in which they are made, and a list is made
after its elements, so that none contains itself and every value amounts to a datum. Where programs
run in one context, a value belongs to that context, to a builtin called in it, or to none, so that
no chain of callers is longer than the context's own with one more in front.
-/

namespace SceneScript

namespace Context

/-- The contexts of values where programs run in this one. -/
inductive Owns (context : Context) : Context → Prop
  | running : Owns context context
  | call {b : Builtin} (known : b ∈ Builtin.core ++ Builtin.scene) (site : Place) :
      Owns context (context.call b.name site)
  | anonymous : Owns context .anonymous

theorem Owns.length_le {context c : Context} (owned : context.Owns c) :
    c.activations.length ≤ context.activations.length + 1 := by
  cases owned with
  | running => exact Nat.le_succ _
  | call known site => exact Nat.le_refl _
  | anonymous => exact Nat.succ_le_succ (Nat.zero_le _)

/-- The context that called. -/
def caller? (c : Context) : Option Context :=
  match c.callers with
  | [] => none
  | a :: as => some ⟨a, as⟩

/-- From a place in a context, a traceback goes on to the place of the call in the caller, as far as
    there is a caller and the place is known. -/
inductive Unwinds : Context → Place → List (Place × Activation) → Prop
  | last {c : Context} {place : Place} (stop : c.current.calledAt = none ∨ c.caller? = none) :
      Unwinds c place [(place, c.current)]
  | next {c d : Context} {place site : Place} {rest : List (Place × Activation)}
      (known : c.current.calledAt = some site) (caller : c.caller? = some d)
      (unwinds : Unwinds d site rest) : Unwinds c place ((place, c.current) :: rest)

theorem unwinds_placed (c : Context) (place : Place) : c.Unwinds place (c.placed place) := by
  obtain ⟨a, callers⟩ := c
  induction callers generalizing a place with
  | nil =>
    have alone : placed ⟨a, []⟩ place = [(place, a)] := by
      simp only [placed, activations, placedFrom]
      split <;> rfl
    rw [alone]
    exact .last (.inr rfl)
  | cons b callers ih =>
    simp only [placed, activations, placedFrom]
    cases known : a.calledAt with
    | none => exact .last (.inl known)
    | some site => exact .next known rfl (ih site b)

theorem Unwinds.length_le {c : Context} {place : Place} {entries : List (Place × Activation)}
    (unwinds : c.Unwinds place entries) : entries.length ≤ c.activations.length := by
  induction unwinds with
  | last => exact Nat.succ_le_succ (Nat.zero_le _)
  | @next c d _ _ _ _ caller _ ih =>
    obtain ⟨a, callers⟩ := c
    cases callers with
    | nil => cases caller
    | cons b callers =>
      cases caller
      exact Nat.succ_le_succ ih

theorem traceLines_eq_ok {entries : List (Place × Activation)}
    (numbered : ∀ e ∈ entries, ∃ number, e.1.lineNumber = .ok number) :
    ∃ lines, traceLines entries = .ok lines := by
  induction entries with
  | nil => exact ⟨_, rfl⟩
  | cons e rest ih =>
    obtain ⟨⟨number, first⟩, others⟩ := List.forall_mem_cons.mp numbered
    obtain ⟨lines, rendered⟩ := ih others
    obtain ⟨place, a⟩ := e
    exact ⟨_, by simp only [traceLines, first, rendered]; rfl⟩

/-- The traceback from a place in the context comes to an end after so many activations at most, and
    it is a text if the lines of their places have numbers. -/
def UnwindsWithin (n : Nat) (c : Context) (place : Place) : Prop :=
  ∃ entries, c.Unwinds place entries ∧ entries.length ≤ n ∧
    traceback (some c) place = (traceLines entries).map ("traceback on:\n" ++ ·) ∧
    ((∀ e ∈ entries, ∃ number, e.1.lineNumber = .ok number) →
      ∃ text, traceback (some c) place = .ok text)

theorem unwindsWithin {c : Context} {n : Nat} (short : c.activations.length ≤ n) (place : Place) :
    c.UnwindsWithin n place := by
  have unwinds := c.unwinds_placed place
  refine ⟨_, unwinds, Nat.le_trans unwinds.length_le short, c.traceback_some place, ?_⟩
  intro numbered
  obtain ⟨lines, rendered⟩ := traceLines_eq_ok numbered
  rw [c.traceback_some, rendered]
  exact ⟨_, rfl⟩

end Context

/-- The value is regular, was made after its elements, and belongs to a context of values. -/
structure Cell.Founded (context : Context) (r : Ref) (c : Cell) : Prop where
  regular : c.content.Regular
  older : ∀ s ∈ c.content.elements, s < r
  owned : context.Owns c.stamp.context

theorem Cell.Founded.bare {context : Context} {r : Ref} {c : Cell} (regular : c.content.Regular)
    (bare : c.content.elements = []) (owned : context.Owns c.stamp.context) :
    c.Founded context r :=
  ⟨regular, by simp [bare], owned⟩

/-- All values are founded, and what is bound exists. -/
structure Machine.Founded (context : Context) (m : Machine) : Prop where
  cells : ∀ (r : Ref) (c : Cell), m.cells[r]? = some c → c.Founded context r
  bound : ∀ (id : TableId) (t : Table), m.tables[id]? = some t →
    ∀ entry ∈ t.entries, entry.2 < m.cells.size

namespace Machine

/-- The one value is an element of the other. -/
def IsElement (m : Machine) (s r : Ref) : Prop := s ∈ (m.cell r).content.elements

theorem exists_amountAll {m : Machine} {rs : List Ref} (each : ∀ r ∈ rs, ∃ d, m.Stands r d) :
    ∃ ds, m.AmountAll rs ds := by
  induction rs with
  | nil => exact ⟨[], by rw [AmountAll]⟩
  | cons r rest ih =>
    obtain ⟨⟨d, first⟩, others⟩ := List.forall_mem_cons.mp each
    obtain ⟨ds, all⟩ := ih others
    exact ⟨d :: ds, amountAll_cons.mpr ⟨r, rest, rfl, first, all⟩⟩

namespace Founded

variable {context : Context} {m : Machine} {r : Ref} {c : Cell}

theorem cell (founded : m.Founded context) (r : Ref) : (m.cell r).Founded context r := by
  rw [Machine.cell]
  cases there : m.cells[r]? with
  | none => exact .bare trivial rfl .anonymous
  | some c => exact founded.cells r c there

theorem elements_lt (founded : m.Founded context) (r : Ref) :
    ∀ s ∈ (m.cell r).content.elements, s < m.cells.size := by
  intro s member
  by_cases existed : r < m.cells.size
  · exact Nat.lt_trans ((founded.cell r).older s member) existed
  · rw [Machine.cell, Array.getElem?_eq_none (Nat.le_of_not_lt existed)] at member
    cases member

theorem closed (founded : m.Founded context) : m.Closed where
  there _ _ is := nomatch is
  held r holds := by
    refine ⟨?_, rfl⟩
    rcases holds with ⟨id, t, there, entry, member, rfl⟩ | ⟨s, c, there, member⟩
    · exact founded.bound id t there entry member
    · rw [← cell_of_getElem? there] at member
      exact founded.elements_lt s r member

theorem alloc (founded : m.Founded context) (new : c.Founded context m.cells.size) :
    (m.alloc c).2.Founded context where
  cells r d there := by
    rw [getElem?_alloc] at there
    split at there
    · cases there
      rw [‹r = _›]
      exact new
    · exact founded.cells r d there
  bound id t there entry member := by
    rw [size_alloc]
    exact Nat.lt_succ_of_lt (founded.bound id t there entry member)

/-- A copy of a value that is made next, whatever its stamp. -/
theorem copy (founded : m.Founded context) (r : Ref) {stamp : Stamp}
    (owned : context.Owns stamp.context) :
    Cell.Founded context m.cells.size ⟨(m.cell r).content, stamp⟩ :=
  ⟨(founded.cell r).regular, founded.elements_lt r, owned⟩

theorem place (founded : m.Founded context) (r : Ref) (span : Span) :
    (m.place r span).Founded context where
  cells s d there := by
    simp only [Machine.place, Array.getElem?_modify] at there
    split at there
    · obtain ⟨c, existed, rfl⟩ := Option.map_eq_some_iff.mp there
      have whole := founded.cells s c existed
      exact ⟨whole.regular, whole.older, whole.owned⟩
    · exact founded.cells s d there
  bound id t there entry member := by
    rw [Machine.place, Array.size_modify]
    exact founded.bound id t there entry member

theorem bind (founded : m.Founded context) (existed : r < m.cells.size) (id : TableId)
    (name : Name) : (m.bind id name r).Founded context where
  cells := founded.cells
  bound i t there entry member := by
    simp only [Machine.bind, Array.getElem?_modify] at there
    split at there
    · obtain ⟨old, before, rfl⟩ := Option.map_eq_some_iff.mp there
      rcases Table.snd_of_mem_bindIn member with earlier | rfl
      · exact founded.bound i old before entry earlier
      · exact existed
    · exact founded.bound i t there entry member

/-- A new value, under a name from the start. -/
theorem alloc_bind (founded : m.Founded context) (new : c.Founded context m.cells.size)
    (id : TableId) (name : Name) : ((m.alloc c).2.bind id name m.cells.size).Founded context := by
  refine bind (founded.alloc new) ?_ id name
  rw [size_alloc]
  exact Nat.lt_succ_self _

theorem newTable (founded : m.Founded context) (parent : Option TableId) :
    (m.newTable parent).2.Founded context where
  cells := founded.cells
  bound id t there entry member := by
    rw [Machine.newTable, Array.getElem?_push] at there
    split at there
    · cases there
      cases member
    · exact founded.bound id t there entry member

theorem aside {m' : Machine} (founded : m.Founded context) (cells : m'.cells = m.cells)
    (tables : m'.tables = m.tables) : m'.Founded context where
  cells := by
    rw [cells]
    exact founded.cells
  bound := by
    rw [cells, tables]
    exact founded.bound

theorem bindBuiltins (founded : m.Founded context) (id : TableId) {bs : List Builtin}
    (known : ∀ b ∈ bs, b ∈ Builtin.core ++ Builtin.scene) :
    (bs.foldl (·.bindBuiltin id) m).Founded context := by
  induction bs generalizing m with
  | nil => exact founded
  | cons b bs ih =>
    obtain ⟨first, others⟩ := List.forall_mem_cons.mp known
    have new : Cell.Founded context m.cells.size ⟨.builtin b, .none⟩ := .bare first rfl .anonymous
    exact ih (founded.alloc_bind new id b.name) others

/-- A context for whole programs, whichever of the scene builtins it has. -/
theorem programContext (context : Context) {builtins : List Builtin}
    (known : builtins ⊆ Builtin.scene) :
    (Machine.initial.programContext builtins).2.Founded context := by
  have opened : (Machine.initial.newTable none).2.Founded context := by
    refine newTable ⟨fun r c there => ?_, fun id t there entry member => ?_⟩ none
    · obtain ⟨within, rfl⟩ := Array.getElem?_eq_some_iff.mp there
      match r, within with
      | 0, _ | 1, _ | 2, _ => exact .bare trivial rfl .anonymous
    · obtain ⟨within, rfl⟩ := Array.getElem?_eq_some_iff.mp there
      obtain rfl : id = 0 := Nat.lt_one_iff.mp within
      cases member
  refine bindBuiltins (((opened.bind ?_ _ _).bind ?_ _ _).bind ?_ _ _) _ fun b member => ?_
  iterate 3 decide
  · exact List.mem_append.mpr ((List.mem_append.mp member).imp_right fun scenic => known scenic)

/-- A value comes after all that it contains. -/
theorem lt_of_transGen (founded : m.Founded context) {s : Ref}
    (contains : Relation.TransGen m.IsElement s r) : s < r := by
  induction contains with
  | single element => exact (founded.cell _).older s element
  | tail _ element ih => exact Nat.lt_trans ih ((founded.cell _).older _ element)

theorem acyclic (founded : m.Founded context) (r : Ref) : ¬ Relation.TransGen m.IsElement r r :=
  fun contains => Nat.lt_irrefl r (founded.lt_of_transGen contains)

/-- Every value amounts to a datum, since all of its elements do. -/
theorem stands (founded : m.Founded context) (existed : r < m.cells.size) : ∃ d, m.Stands r d := by
  induction r using Nat.strongRecOn with
  | ind r ih =>
    have whole := founded.cell r
    have there := getElem?_of_lt existed
    generalize m.cell r = c at whole there
    obtain ⟨content, stamp⟩ := c
    cases content with
    | number x => exact ⟨.number x, _, there, by rw [Amounts]⟩
    | text s => exact ⟨.text s, _, there, by rw [Amounts]⟩
    | builtin b => exact ⟨.builtin b, _, there, by rw [Amounts]; exact ⟨rfl, whole.regular⟩⟩
    | literal | plain => exact whole.regular.elim
    | list elements =>
      have each : ∀ s ∈ elements, ∃ d, m.Stands s d := fun s member =>
        ih s (whole.older s member) (Nat.lt_trans (whole.older s member) existed)
      obtain ⟨ds, all⟩ := exists_amountAll each
      exact ⟨.list ds, _, there, by rw [Amounts]; exact ⟨elements, rfl, all⟩⟩

end Founded

end Machine

end SceneScript
