import Mathlib.Data.List.Perm.Subperm
import SceneScript.Proofs.Eval.Frame
import SceneScript.Proofs.Eval.Making

/-!
What values amount to. A datum is a value of the language with all its elements but without places,
contexts and sharing. Two values that amount to the same datum print alike.
-/

namespace SceneScript

inductive Datum where
  | number (x : Float)
  | text (s : String)
  | list (elements : List Datum)
  | builtin (b : Builtin)

namespace Datum

mutual

def display : Datum → String
  | .number x => numberText x
  | .text s => s
  | .list elements => "[" ++ ", ".intercalate (displayAll elements) ++ "]"
  | .builtin b => b.display

def displayAll : List Datum → List String
  | [] => []
  | d :: ds => display d :: displayAll ds

end

mutual

/-- How deep the elements are nested. -/
def height : Datum → Nat
  | .list elements => heightAll elements + 1
  | .number _ | .text _ | .builtin _ => 1

def heightAll : List Datum → Nat
  | [] => 0
  | d :: ds => max (height d) (heightAll ds)

end

end Datum

namespace Machine

mutual

/-- The content amounts to the datum. The builtins are those of the language and of scenes. -/
def Amounts (m : Machine) (content : Content) : Datum → Prop
  | .number x => content = .number x
  | .text s => content = .text s
  | .list ds => ∃ rs, content = .list rs ∧ AmountAll m rs ds
  | .builtin b => content = .builtin b ∧ b ∈ Builtin.core ++ Builtin.scene

def AmountAll (m : Machine) (rs : List Ref) : List Datum → Prop
  | [] => rs = []
  | d :: ds => ∃ r rest c, rs = r :: rest ∧ m.cells[r]? = some c ∧ Amounts m c.content d ∧
      AmountAll m rest ds

end

/-- The value exists and amounts to the datum. -/
def Stands (m : Machine) (r : Ref) (d : Datum) : Prop :=
  ∃ c : Cell, m.cells[r]? = some c ∧ m.Amounts c.content d

section Amounts

variable {m m' : Machine} {r : Ref} {d : Datum}

theorem amountAll_cons {rs : List Ref} {ds : List Datum} :
    m.AmountAll rs (d :: ds) ↔ ∃ r rest, rs = r :: rest ∧ m.Stands r d ∧ m.AmountAll rest ds := by
  rw [AmountAll]
  constructor
  · rintro ⟨r, rest, c, rfl, there, amounts, others⟩
    exact ⟨r, rest, rfl, ⟨c, there, amounts⟩, others⟩
  · rintro ⟨r, rest, rfl, ⟨c, there, amounts⟩, others⟩
    exact ⟨r, rest, c, rfl, there, amounts, others⟩

theorem Amounts.firm {content : Content} (amounts : m.Amounts content d) : content ≠ .plain := by
  cases d with
  | number | text =>
    rw [Amounts] at amounts
    simp [amounts]
  | list =>
    rw [Amounts] at amounts
    obtain ⟨rs, rfl, -⟩ := amounts
    simp
  | builtin =>
    rw [Amounts] at amounts
    simp [amounts.1]

/-- Every value is there with the same content. -/
def SameContents (m m' : Machine) : Prop :=
  ∀ (r : Ref) (c : Cell), m.cells[r]? = some c →
    ∃ c' : Cell, m'.cells[r]? = some c' ∧ c'.content = c.content

theorem Extends.sameContents (more : m.Extends m') : m.SameContents m' :=
  fun r c there => ⟨c, more r c there, rfl⟩

theorem sameContents_place (m : Machine) (r : Ref) (span : Span) :
    m.SameContents (m.place r span) := by
  intro s c there
  rw [place, Array.getElem?_modify, there]
  split
  · exact ⟨_, rfl, rfl⟩
  · exact ⟨_, rfl, rfl⟩

mutual

theorem Amounts.later (same : m.SameContents m') {content : Content} :
    ∀ d, m.Amounts content d → m'.Amounts content d
  | .number x, amounts | .text s, amounts | .builtin b, amounts => by
    rw [Amounts] at amounts ⊢
    exact amounts
  | .list ds, amounts => by
    rw [Amounts] at amounts ⊢
    obtain ⟨rs, content, all⟩ := amounts
    exact ⟨rs, content, AmountAll.later same ds all⟩

theorem AmountAll.later (same : m.SameContents m') :
    ∀ {rs : List Ref} ds, m.AmountAll rs ds → m'.AmountAll rs ds
  | _, [], all => by
    rw [AmountAll] at all ⊢
    exact all
  | _, d :: ds, all => by
    rw [AmountAll] at all ⊢
    obtain ⟨r, rest, c, rfl, there, amounts, others⟩ := all
    obtain ⟨c', there', content⟩ := same r c there
    refine ⟨r, rest, c', rfl, there', ?_, AmountAll.later same ds others⟩
    rw [content]
    exact Amounts.later same d amounts

end

theorem Stands.later (same : m.SameContents m') (stands : m.Stands r d) : m'.Stands r d := by
  obtain ⟨c, there, amounts⟩ := stands
  obtain ⟨c', there', content⟩ := same r c there
  refine ⟨c', there', ?_⟩
  rw [content]
  exact amounts.later same d

mutual

theorem Amounts.unique {content : Content} :
    ∀ d e, m.Amounts content d → m.Amounts content e → d = e
  | .list ds, .list es, first, second => by
    rw [Amounts] at first second
    obtain ⟨rs, rfl, all⟩ := first
    obtain ⟨rs', same, all'⟩ := second
    cases same
    rw [AmountAll.unique ds es all all']
  | .number x, e, first, second | .text s, e, first, second | .builtin b, e, first, second => by
    cases e <;> simp_all [Amounts]
  | .list ds, .number x, first, second | .list ds, .text s, first, second
  | .list ds, .builtin b, first, second => by
    simp only [Amounts] at first second
    obtain ⟨rs, rfl, -⟩ := first
    simp at second

theorem AmountAll.unique {rs : List Ref} :
    ∀ ds es, m.AmountAll rs ds → m.AmountAll rs es → ds = es
  | [], [], _, _ => rfl
  | [], e :: es, first, second | e :: es, [], second, first => by
    simp only [AmountAll] at first second
    obtain ⟨_, _, _, same, -⟩ := second
    cases first.symm.trans same
  | d :: ds, e :: es, first, second => by
    rw [AmountAll] at first second
    obtain ⟨r, rest, c, rfl, there, amounts, others⟩ := first
    obtain ⟨_, _, c', same, there', amounts', others'⟩ := second
    cases same
    rw [there] at there'
    cases there'
    rw [Amounts.unique d e amounts amounts', AmountAll.unique ds es others others']

end

theorem Stands.unique {e : Datum} (stands : m.Stands r d) (also : m.Stands r e) : d = e := by
  obtain ⟨c, there, amounts⟩ := stands
  obtain ⟨c', there', amounts'⟩ := also
  rw [there] at there'
  cases there'
  exact amounts.unique d e amounts'

/-- A way down through nested elements, no value twice. -/
def Descends (m : Machine) (path : List Ref) (height : Nat) : Prop :=
  path.length = height ∧ path.Nodup ∧ ∀ s ∈ path, ∃ e, m.Stands s e ∧ e.height ≤ height

mutual

theorem Stands.descends : ∀ d {r : Ref}, m.Stands r d → ∃ path, m.Descends path d.height
  | .number x, r, stands | .text s, r, stands | .builtin b, r, stands => by
    refine ⟨[r], rfl, by simp, fun s member => ?_⟩
    rw [List.mem_singleton.mp member]
    exact ⟨_, stands, Nat.le_refl _⟩
  | .list ds, r, stands => by
    have whole := stands
    obtain ⟨c, there, amounts⟩ := stands
    rw [Amounts] at amounts
    obtain ⟨rs, -, all⟩ := amounts
    obtain ⟨path, length, nodup, lower⟩ := AmountAll.descends ds all
    -- The value itself is higher than all that is on the way down from it.
    have fresh : r ∉ path := by
      intro member
      obtain ⟨e, stands, low⟩ := lower r member
      rw [← whole.unique stands, Datum.height] at low
      omega
    refine ⟨r :: path, ?_, List.nodup_cons.mpr ⟨fresh, nodup⟩, List.forall_mem_cons.mpr ⟨?_, ?_⟩⟩
    · rw [List.length_cons, length, Datum.height]
    · exact ⟨_, whole, Nat.le_refl _⟩
    · intro s member
      obtain ⟨e, stands, low⟩ := lower s member
      exact ⟨e, stands, by rw [Datum.height]; omega⟩

theorem AmountAll.descends : ∀ ds {rs : List Ref}, m.AmountAll rs ds →
    ∃ path, m.Descends path (Datum.heightAll ds)
  | [], _, _ => ⟨[], rfl, List.nodup_nil, by simp⟩
  | d :: ds, rs, all => by
    obtain ⟨r, rest, -, stands, others⟩ := amountAll_cons.mp all
    rw [Datum.heightAll]
    by_cases higher : Datum.heightAll ds ≤ d.height
    · rw [Nat.max_eq_left higher]
      exact stands.descends d
    · rw [Nat.max_eq_right (by omega)]
      exact others.descends ds

end

/-- No datum is nested deeper than there are cells. -/
theorem Stands.height_le (stands : m.Stands r d) : d.height ≤ m.cells.size := by
  obtain ⟨path, length, nodup, lower⟩ := stands.descends d
  have within : path ⊆ List.range m.cells.size := by
    intro s member
    obtain ⟨e, ⟨c, there, -⟩, -⟩ := lower s member
    exact List.mem_range.mpr (Array.getElem?_eq_some_iff.mp there).1
  have shorter := (List.subperm_of_subset nodup within).length_le
  rw [List.length_range, length] at shorter
  exact shorter

mutual

theorem Stands.display_viewUpTo : ∀ d {depth : Nat} {r : Ref}, m.Stands r d → d.height ≤ depth →
    (m.viewUpTo depth r).display? = some d.display
  | .number x, 0, _, _, deep | .text s, 0, _, _, deep | .builtin b, 0, _, _, deep
  | .list ds, 0, _, _, deep => by simp [Datum.height] at deep
  | .number x, depth + 1, r, stands, _ | .text s, depth + 1, r, stands, _ => by
    obtain ⟨c, there, amounts⟩ := stands
    rw [Amounts] at amounts
    simp only [viewUpTo, cell_of_getElem? there, amounts, View.display?, Datum.display]
  | .builtin b, depth + 1, r, stands, _ => by
    obtain ⟨c, there, amounts⟩ := stands
    rw [Amounts] at amounts
    simp only [viewUpTo, cell_of_getElem? there, amounts.1, View.display?, Datum.display,
      Builtin.display]
  | .list ds, depth + 1, r, stands, deep => by
    obtain ⟨c, there, amounts⟩ := stands
    rw [Amounts] at amounts
    obtain ⟨rs, content, all⟩ := amounts
    rw [Datum.height, Nat.add_le_add_iff_right] at deep
    have parts := all.display_viewUpTo ds deep
    simp only [viewUpTo, cell_of_getElem? there, content, View.display?, parts, Datum.display]
    rfl

theorem AmountAll.display_viewUpTo : ∀ ds {depth : Nat} {rs : List Ref}, m.AmountAll rs ds →
    Datum.heightAll ds ≤ depth →
    View.displayAll? (rs.map (m.viewUpTo depth)) = some (Datum.displayAll ds)
  | [], _, _, all, _ => by
    rw [AmountAll] at all
    subst all
    rfl
  | d :: ds, _, _, all, deep => by
    obtain ⟨r, rest, rfl, stands, others⟩ := amountAll_cons.mp all
    rw [Datum.heightAll, Nat.max_le] at deep
    rw [List.map_cons, View.displayAll?, stands.display_viewUpTo d deep.1,
      others.display_viewUpTo ds deep.2, Datum.displayAll]
    rfl

end

theorem Stands.display_view (stands : m.Stands r d) : (m.view r).display? = some d.display :=
  stands.display_viewUpTo d stands.height_le

theorem AmountAll.append {rs rs' : List Ref} {ds ds' : List Datum} (first : m.AmountAll rs ds)
    (second : m.AmountAll rs' ds') : m.AmountAll (rs ++ rs') (ds ++ ds') := by
  induction ds generalizing rs with
  | nil =>
    rw [AmountAll] at first
    subst first
    exact second
  | cons d ds ih =>
    obtain ⟨r, rest, rfl, stands, others⟩ := amountAll_cons.mp first
    exact amountAll_cons.mpr ⟨r, rest ++ rs', rfl, stands, ih others⟩

theorem amountAll_singleton (stands : m.Stands r d) : m.AmountAll [r] [d] :=
  amountAll_cons.mpr ⟨r, [], rfl, stands, by rw [AmountAll]⟩

/-- Where there is an element there is a datum, to which it amounts. -/
theorem AmountAll.getElem? {rs : List Ref} {ds : List Datum} (all : m.AmountAll rs ds) (i : Nat) :
    (rs[i]? = none ∧ ds[i]? = none) ∨
      ∃ r d, rs[i]? = some r ∧ ds[i]? = some d ∧ m.Stands r d := by
  induction ds generalizing rs i with
  | nil =>
    rw [AmountAll] at all
    subst all
    exact .inl ⟨rfl, rfl⟩
  | cons d ds ih =>
    obtain ⟨r, rest, rfl, stands, others⟩ := amountAll_cons.mp all
    cases i with
    | zero => exact .inr ⟨r, d, rfl, rfl, stands⟩
    | succ i => exact ih others i

theorem AmountAll.length_eq {rs : List Ref} {ds : List Datum} (all : m.AmountAll rs ds) :
    rs.length = ds.length := by
  induction ds generalizing rs with
  | nil =>
    rw [AmountAll] at all
    subst all
    rfl
  | cons d ds ih =>
    obtain ⟨r, rest, rfl, -, others⟩ := amountAll_cons.mp all
    rw [List.length_cons, List.length_cons, ih others]

end Amounts

end Machine

end SceneScript
