import Mathlib.Data.List.Forall2
import SceneScript.Proofs.Value.References

/-!
Machines that differ in the numbers of their values and in all places: in one of them there may be
further values that nothing holds, and values may have come from elsewhere. What can be seen of
their values and variables is the same.
-/

namespace SceneScript

namespace Context

/-- The activations without the places of the calls. -/
def plain (c : Context) : List (String × TableId) := c.activations.map fun a => (a.name, a.table)

theorem plain_call (c : Context) (name : String) (site : Place) :
    (c.call name site).plain = (name, c.table) :: c.plain := rfl

theorem table_eq_of_plain {c c' : Context} (same : c.plain = c'.plain) : c.table = c'.table :=
  congrArg Prod.snd (List.cons.inj same).1

end Context

namespace View

mutual

/-- What is seen without the places and contexts. -/
def bare : View → View
  | .number x _ => .number x .none
  | .text s _ => .text s .none
  | .literal value _ => .literal value .none
  | .list elements _ => .list (bareAll elements) .none
  | .builtin name _ => .builtin name .none
  | .plain _ => .plain .none

def bareAll : List View → List View
  | [] => []
  | v :: vs => bare v :: bareAll vs

end

theorem bareAll_eq_map (vs : List View) : bareAll vs = vs.map bare := by
  induction vs with
  | nil => rfl
  | cons v vs ih => rw [bareAll, List.map_cons, ih]

mutual

theorem display?_bare : ∀ v : View, v.bare.display? = v.display?
  | .number .. | .text .. | .literal .. | .builtin .. | .plain .. => rfl
  | .list elements _ => by rw [bare, display?, displayAll?_bareAll elements, display?]

theorem displayAll?_bareAll : ∀ vs : List View, displayAll? (bareAll vs) = displayAll? vs
  | [] => rfl
  | v :: vs => by rw [bareAll, displayAll?, display?_bare v, displayAll?_bareAll vs, displayAll?]

end

end View

/-- What a host's function is told apart from places. -/
def HostCall.bare (c : HostCall) : String × List View × List (String × TableId) :=
  (c.name, View.bareAll c.args, c.context.plain)

/-- Other numbers for values, in the same order. The constants keep theirs. -/
structure Renaming where
  number : Nat → Nat
  mono : ∀ {r s}, r < s → number r < number s
  constant : ∀ c, number (Machine.constant c) = Machine.constant c

namespace Renaming

def id : Renaming := ⟨fun r => r, fun less => less, fun _ => rfl⟩

/-- The number `hole` is left out. -/
def skip (hole : Nat) (behind : 3 ≤ hole) : Renaming where
  number r := if r < hole then r else r + 1
  mono less := by
    split <;> split <;> omega
  constant c := by
    have small : Machine.constant c < hole := by
      refine Nat.lt_of_lt_of_le ?_ behind
      cases c <;> decide
    rw [if_pos small]

variable {ρ : Renaming}

theorem eq_iff {r s : Nat} : ρ.number r = ρ.number s ↔ r = s := by
  constructor
  · intro same
    rcases Nat.lt_trichotomy r s with less | equal | more
    · have := ρ.mono less
      omega
    · exact equal
    · have := ρ.mono more
      omega
  · exact fun same => congrArg ρ.number same

end Renaming

def Content.rename (ρ : Renaming) : Content → Content
  | .list elements => .list (elements.map ρ.number)
  | content => content

theorem Content.rename_congr {ρ σ : Renaming} {c : Content}
    (same : ∀ r ∈ c.elements, ρ.number r = σ.number r) : c.rename ρ = c.rename σ := by
  cases c with
  | list elements => exact congrArg Content.list (List.map_congr_left same)
  | _ => rfl

theorem Content.rename_of_bare (ρ : Renaming) {c : Content} (bare : c.elements = []) :
    c.rename ρ = c := by
  cases c with
  | list elements =>
    obtain rfl : elements = [] := bare
    rfl
  | _ => rfl

/-- The same content under other numbers, in the same activations. -/
structure Cell.Mirrors (ρ : Renaming) (c c' : Cell) : Prop where
  content : c'.content = c.content.rename ρ
  context : c.stamp.context.plain = c'.stamp.context.plain

namespace Table

def rename (ρ : Renaming) (t : Table) : Table :=
  { t with entries := t.entries.map fun (name, r) => (name, ρ.number r) }

theorem own?_rename (ρ : Renaming) (t : Table) (name : Name) :
    (t.rename ρ).own? name = (t.own? name).map ρ.number := by
  obtain ⟨parent, entries⟩ := t
  simp only [own?, rename]
  induction entries with
  | nil => rfl
  | cons entry entries ih =>
    obtain ⟨other, r⟩ := entry
    rw [List.map_cons, List.lookup_cons, List.lookup_cons, ih]
    cases name == other <;> rfl

theorem rename_congr {ρ σ : Renaming} {t : Table}
    (same : ∀ entry ∈ t.entries, ρ.number entry.2 = σ.number entry.2) :
    t.rename ρ = t.rename σ := by
  simp only [rename, mk.injEq, true_and]
  exact List.map_congr_left fun entry member => by rw [same entry member]

theorem rename_bind (ρ : Renaming) (t : Table) (name : Name) (r : Ref) :
    (t.bind name r).rename ρ = (t.rename ρ).bind name (ρ.number r) := by
  obtain ⟨parent, entries⟩ := t
  simp only [bind, rename, mk.injEq, true_and]
  induction entries with
  | nil => rfl
  | cons entry entries ih =>
    obtain ⟨other, s⟩ := entry
    simp only [bindIn, List.map_cons]
    split
    · rfl
    · rw [List.map_cons, ih]

end Table

namespace Machine

variable {ρ : Renaming} {m m' : Machine} {c c' : Cell} {r : Nat}

theorem cell_alloc (m : Machine) (c : Cell) (r : Ref) :
    (m.alloc c).2.cell r = if r = m.cells.size then c else m.cell r := by
  rw [cell, cell, getElem?_alloc]
  split <;> rfl

theorem cell_modify (m : Machine) (s : Ref) (f : Cell → Cell) (r : Ref) :
    { m with cells := m.cells.modify s f }.cell r =
      if s = r ∧ r < m.cells.size then f (m.cell r) else m.cell r := by
  rw [cell, cell, Array.getElem?_modify]
  by_cases here : s = r
  · by_cases existed : r < m.cells.size
    · rw [if_pos here, if_pos ⟨here, existed⟩, Array.getElem?_eq_getElem existed]
      rfl
    · rw [if_pos here, if_neg fun both => existed both.2,
        Array.getElem?_eq_none (Nat.le_of_not_lt existed)]
      rfl
  · rw [if_neg here, if_neg fun both => here both.1]

/-- The values have the same content, wherever they were made. -/
inductive ContentEqual (m m' : Machine) : Ref → Ref → Prop
  | same {r r' : Ref} (content : (m.cell r).content = (m'.cell r').content)
      (bare : (m.cell r).content.elements = []) : ContentEqual m m' r r'
  | list {r r' : Ref} {elements elements' : List Ref}
      (content : (m.cell r).content = .list elements)
      (content' : (m'.cell r').content = .list elements')
      (each : List.Forall₂ (ContentEqual m m') elements elements') : ContentEqual m m' r r'

/-- The second machine holds what the first one does, under other numbers. Values come behind their
    elements, and what is bound exists. -/
structure Mirrors (ρ : Renaming) (m m' : Machine) : Prop where
  cells : ∀ r, (m.cell r).Mirrors ρ (m'.cell (ρ.number r))
  fresh : ∀ i, ρ.number (m.cells.size + i) = m'.cells.size + i
  tables : m'.tables = m.tables.map (·.rename ρ)
  output : m.output = m'.output
  scene : m.scene = m'.scene
  calls : m.calls.map HostCall.bare = m'.calls.map HostCall.bare
  ordered : ∀ r, ∀ s ∈ (m.cell r).content.elements, s < r
  bound : ∀ id, ∀ entry ∈ (m.table id).entries, entry.2 < m.cells.size
  constants : 3 ≤ m.cells.size

namespace Mirrors

theorem number_size (mirrors : Mirrors ρ m m') : ρ.number m.cells.size = m'.cells.size :=
  mirrors.fresh 0

theorem lt_iff (mirrors : Mirrors ρ m m') : ρ.number r < m'.cells.size ↔ r < m.cells.size := by
  have first := mirrors.number_size
  constructor
  · intro less
    rcases Nat.lt_or_ge r m.cells.size with existed | beyond
    · exact existed
    · obtain ⟨i, rfl⟩ := Nat.exists_eq_add_of_le beyond
      rw [mirrors.fresh i] at less
      omega
  · intro less
    have ordered := ρ.mono less
    omega

theorem constant_lt (mirrors : Mirrors ρ m m') (c : Constant) : constant c < m.cells.size := by
  refine Nat.lt_of_lt_of_le ?_ mirrors.constants
  cases c <;> decide

theorem table (mirrors : Mirrors ρ m m') (id : TableId) : m'.table id = (m.table id).rename ρ := by
  rw [Machine.table, Machine.table, mirrors.tables, Array.getElem?_map]
  cases m.tables[id]? <;> rfl

theorem lookup (mirrors : Mirrors ρ m m') (id : TableId) (name : Name) :
    m'.lookup id name = (m.lookup id name).map ρ.number := by
  induction id using Nat.strongRecOn with
  | ind id ih =>
    rw [Machine.lookup, Machine.lookup, mirrors.table, Table.own?_rename]
    cases (m.table id).own? name with
    | some value => rfl
    | none =>
      have parent : ((m.table id).rename ρ).parent = (m.table id).parent := rfl
      rw [parent]
      cases (m.table id).parent with
      | none => rfl
      | some parent =>
        by_cases behind : parent < id
        · simp only [Option.map_none, behind, if_true, ih parent behind]
        · simp only [Option.map_none, behind, if_false]

theorem lt_of_lookup (mirrors : Mirrors ρ m m') {id : TableId} {name : Name}
    (found : m.lookup id name = some r) : r < m.cells.size := by
  fun_induction Machine.lookup m id name with
  | case1 id value own =>
    cases found
    exact mirrors.bound id _ (Table.mem_of_lookup own)
  | case2 id _ parent _ _ ih => exact ih found
  | case3 => cases found
  | case4 => cases found

theorem elements_lt (mirrors : Mirrors ρ m m') (r : Ref) :
    ∀ s ∈ (m.cell r).content.elements, s < m.cells.size := by
  intro s member
  by_cases existed : r < m.cells.size
  · exact Nat.lt_trans (mirrors.ordered r s member) existed
  · rw [Machine.cell, Array.getElem?_eq_none (Nat.le_of_not_lt existed)] at member
    cases member

theorem alloc (mirrors : Mirrors ρ m m') (like : c.Mirrors ρ c')
    (known : ∀ s ∈ c.content.elements, s < m.cells.size) :
    Mirrors ρ (m.alloc c).2 (m'.alloc c').2 where
  cells r := by
    have newest : ρ.number r = m'.cells.size ↔ r = m.cells.size := by
      rw [← mirrors.number_size, Renaming.eq_iff]
    rw [cell_alloc, cell_alloc]
    by_cases new : r = m.cells.size
    · rw [if_pos new, if_pos (newest.mpr new)]
      exact like
    · rw [if_neg new, if_neg fun same => new (newest.mp same)]
      exact mirrors.cells r
  fresh i := by
    have next := mirrors.fresh (i + 1)
    rw [size_alloc, size_alloc, Nat.add_right_comm, Nat.add_assoc, next]
    omega
  tables := mirrors.tables
  output := mirrors.output
  scene := mirrors.scene
  calls := mirrors.calls
  ordered r s member := by
    rw [cell_alloc] at member
    split at member
    · rename_i new
      rw [new]
      exact known s member
    · exact mirrors.ordered r s member
  bound id entry member := by
    rw [size_alloc]
    exact Nat.lt_succ_of_lt (mirrors.bound id entry member)
  constants := by
    rw [size_alloc]
    exact Nat.le_succ_of_le mirrors.constants

/-- Both machines get the same cell. -/
theorem alloc_bare (mirrors : Mirrors ρ m m') (content : Content) (bare : content.elements = [])
    (stamp : Stamp) :
    Mirrors ρ (m.alloc ⟨content, stamp⟩).2 (m'.alloc ⟨content, stamp⟩).2 := by
  refine mirrors.alloc ⟨(Content.rename_of_bare ρ bare).symm, rfl⟩ fun s member => ?_
  rw [bare] at member
  cases member

theorem modify (mirrors : Mirrors ρ m m') (s : Ref) (f f' : Cell → Cell)
    (content : ∀ c, (f c).content = c.content) (content' : ∀ c, (f' c).content = c.content)
    (context : ∀ c c' : Cell, c.Mirrors ρ c' →
      (f c).stamp.context.plain = (f' c').stamp.context.plain) :
    Mirrors ρ { m with cells := m.cells.modify s f }
      { m' with cells := m'.cells.modify (ρ.number s) f' } where
  cells r := by
    have like := mirrors.cells r
    have same : ρ.number s = ρ.number r ∧ ρ.number r < m'.cells.size ↔
        s = r ∧ r < m.cells.size := by
      rw [Renaming.eq_iff, mirrors.lt_iff]
    rw [cell_modify, cell_modify]
    by_cases here : s = r ∧ r < m.cells.size
    · rw [if_pos here, if_pos (same.mpr here)]
      exact ⟨by rw [content, content', like.content], context _ _ like⟩
    · rw [if_neg here, if_neg fun both => here (same.mp both)]
      exact like
  fresh i := by
    simp only [Array.size_modify]
    exact mirrors.fresh i
  tables := mirrors.tables
  output := mirrors.output
  scene := mirrors.scene
  calls := mirrors.calls
  ordered r t member := by
    rw [cell_modify] at member
    split at member
    · rw [content] at member
      exact mirrors.ordered r t member
    · exact mirrors.ordered r t member
  bound id entry member := by
    simp only [Array.size_modify]
    exact mirrors.bound id entry member
  constants := by
    simp only [Array.size_modify]
    exact mirrors.constants

theorem bind (mirrors : Mirrors ρ m m') (existed : r < m.cells.size) (id : TableId) (name : Name) :
    Mirrors ρ (m.bind id name r) (m'.bind id name (ρ.number r)) where
  cells := mirrors.cells
  fresh := mirrors.fresh
  tables := by
    simp only [Machine.bind, mirrors.tables]
    apply Array.ext_getElem?
    intro i
    simp only [Array.getElem?_modify, Array.getElem?_map]
    split
    · cases m.tables[i]? with
      | none => rfl
      | some t => simp only [Option.map_some, Table.rename_bind]
    · rfl
  output := mirrors.output
  scene := mirrors.scene
  calls := mirrors.calls
  ordered := mirrors.ordered
  bound other entry member := by
    by_cases here : other = id
    · subst here
      rw [Machine.table, Machine.bind, Array.getElem?_modify, if_pos rfl] at member
      cases there : m.tables[other]? with
      | none =>
        rw [there] at member
        cases member
      | some t =>
        rw [there] at member
        rcases Table.snd_of_mem_bindIn member with before | new
        · refine mirrors.bound other entry ?_
          rw [Machine.table, there]
          exact before
        · rw [new]
          exact existed
    · rw [table_bind_of_ne here] at member
      exact mirrors.bound other entry member
  constants := mirrors.constants

theorem newTable (mirrors : Mirrors ρ m m') (parent : Option TableId) :
    Mirrors ρ (m.newTable parent).2 (m'.newTable parent).2 where
  cells := mirrors.cells
  fresh := mirrors.fresh
  tables := by
    simp only [Machine.newTable, mirrors.tables, Array.map_push]
    rfl
  output := mirrors.output
  scene := mirrors.scene
  calls := mirrors.calls
  ordered := mirrors.ordered
  bound id entry member := by
    rw [Machine.table, Machine.newTable, Array.getElem?_push] at member
    split at member
    · cases member
    · exact mirrors.bound id entry member
  constants := mirrors.constants

theorem viewUpTo (mirrors : Mirrors ρ m m') {depth depth' : Nat} (deep : r < depth)
    (deep' : ρ.number r < depth') :
    (m.viewUpTo depth r).bare = (m'.viewUpTo depth' (ρ.number r)).bare := by
  induction depth generalizing depth' r with
  | zero => omega
  | succ depth ih =>
    obtain ⟨depth', rfl⟩ : ∃ k, depth' = k + 1 := ⟨depth' - 1, by omega⟩
    have content := (mirrors.cells r).content
    have ordered := mirrors.ordered r
    simp only [Machine.viewUpTo, content]
    cases within : (m.cell r).content with
    | list elements =>
      rw [within] at ordered
      simp only [Content.rename, View.bare, View.bareAll_eq_map, List.map_map, View.list.injEq,
        and_true]
      refine List.map_congr_left fun s member => ?_
      have before : s < r := ordered s member
      have before' := ρ.mono before
      exact ih (Nat.lt_of_lt_of_le before (by omega)) (by omega)
    | _ => rfl

/-- The same is seen of a value that exists. -/
theorem view (mirrors : Mirrors ρ m m') (existed : r < m.cells.size) :
    (m.view r).bare = (m'.view (ρ.number r)).bare :=
  mirrors.viewUpTo existed (mirrors.lt_iff.mpr existed)

theorem contentEqual (mirrors : Mirrors ρ m m') (r : Nat) : ContentEqual m m' r (ρ.number r) := by
  induction r using Nat.strongRecOn with
  | ind r ih =>
    have content := (mirrors.cells r).content
    have ordered := mirrors.ordered r
    cases within : (m.cell r).content with
    | list elements =>
      rw [within] at content ordered
      refine .list within content ?_
      rw [List.forall₂_map_right_iff, List.forall₂_same]
      exact fun s member => ih s (ordered s member)
    | _ =>
      rw [within] at content
      exact .same (within.trans content.symm) (by rw [within]; rfl)

/-- What is bound to a name has the same content. -/
theorem rel_lookup (mirrors : Mirrors ρ m m') (id : TableId) (name : Name) :
    Option.Rel (ContentEqual m m') (m.lookup id name) (m'.lookup id name) := by
  rw [mirrors.lookup]
  cases m.lookup id name with
  | none => exact .none
  | some r => exact .some (mirrors.contentEqual r)

/-- Only what is outside of the values has changed. -/
theorem aside (mirrors : Mirrors ρ m m') (n n' : Machine) (cells : n.cells = m.cells)
    (cells' : n'.cells = m'.cells) (tables : n.tables = m.tables) (tables' : n'.tables = m'.tables)
    (output : n.output = n'.output) (scene : n.scene = n'.scene)
    (calls : n.calls.map HostCall.bare = n'.calls.map HostCall.bare) : Mirrors ρ n n' where
  cells r := by
    rw [Machine.cell, Machine.cell, cells, cells']
    exact mirrors.cells r
  fresh := by
    rw [cells, cells']
    exact mirrors.fresh
  tables := by
    rw [tables, tables']
    exact mirrors.tables
  output := output
  scene := scene
  calls := calls
  ordered r := by
    rw [Machine.cell, cells]
    exact mirrors.ordered r
  bound id := by
    rw [Machine.table, tables, cells]
    exact mirrors.bound id
  constants := by
    rw [cells]
    exact mirrors.constants

/-- One more value that nothing holds. -/
theorem skip (mirrors : Mirrors .id m m') (extra : Cell) :
    Mirrors (.skip m.cells.size mirrors.constants) m (m'.alloc extra).2 := by
  have size : m.cells.size = m'.cells.size := mirrors.number_size
  have before {r : Nat} (existed : r < m.cells.size) :
      (Renaming.skip m.cells.size mirrors.constants).number r = r := if_pos existed
  have behind {r : Nat} (new : m.cells.size ≤ r) :
      (Renaming.skip m.cells.size mirrors.constants).number r = r + 1 :=
    if_neg (Nat.not_lt.mpr new)
  constructor
  case cells =>
    intro r
    have like := mirrors.cells r
    rcases Nat.lt_or_ge r m.cells.size with existed | new
    · rw [before existed, cell_alloc, if_neg (Nat.ne_of_lt (size ▸ existed))]
      refine ⟨like.content.trans (Content.rename_congr fun s member => ?_), like.context⟩
      exact (before (mirrors.elements_lt r s member)).symm
    · have later : m'.cells.size < r + 1 := by omega
      have none : (m'.alloc extra).2.cell (r + 1) = m'.cell r := by
        rw [cell_alloc, if_neg (Nat.ne_of_gt later), cell, cell,
          Array.getElem?_eq_none (Nat.le_of_lt later), Array.getElem?_eq_none (by omega)]
      rw [behind new, none]
      refine ⟨like.content.trans (Content.rename_congr fun s member => ?_), like.context⟩
      exact (before (mirrors.elements_lt r s member)).symm
  case fresh =>
    intro i
    rw [behind (Nat.le_add_right _ _), size_alloc]
    omega
  case tables =>
    refine Eq.trans mirrors.tables (Array.map_congr_left fun t member => ?_)
    obtain ⟨id, within, rfl⟩ := Array.getElem_of_mem member
    refine Table.rename_congr fun entry member => ?_
    refine (before (mirrors.bound id entry ?_)).symm
    rw [Machine.table, Array.getElem?_eq_getElem within]
    exact member
  case output => exact mirrors.output
  case scene => exact mirrors.scene
  case calls => exact mirrors.calls
  case ordered => exact mirrors.ordered
  case bound => exact mirrors.bound
  case constants => exact mirrors.constants

theorem initial : Mirrors .id .initial .initial := by
  have flat (r : Nat) : (Machine.initial.cell r).content.elements = [] ∧
      (Machine.initial.cell r).content.rename .id = (Machine.initial.cell r).content :=
    match r with
    | 0 | 1 | 2 | _ + 3 => ⟨rfl, rfl⟩
  have empty (id : TableId) : (Machine.initial.table id).entries = [] :=
    match id with
    | 0 | _ + 1 => rfl
  have tables : Machine.initial.tables = Machine.initial.tables.map (·.rename .id) := by
    simp [Machine.initial, Table.rename]
  refine ⟨fun r => ⟨(flat r).2.symm, rfl⟩, fun _ => rfl, tables, rfl, rfl, rfl, ?_, ?_,
    Nat.le_refl 3⟩
  · intro r s member
    rw [(flat r).1] at member
    cases member
  · intro id entry member
    rw [empty id] at member
    cases member

theorem programContext (builtins : List Builtin) :
    Mirrors .id (Machine.initial.programContext builtins).2
      (Machine.initial.programContext builtins).2 := by
  have bindBuiltins {m : Machine} (id : TableId) (bs : List Builtin) (mirrors : Mirrors .id m m) :
      Mirrors .id (bs.foldl (·.bindBuiltin id) m) (bs.foldl (·.bindBuiltin id) m) := by
    induction bs generalizing m with
    | nil => exact mirrors
    | cons b bs ih =>
      have made := mirrors.alloc_bare (.builtin b) rfl .none
      have size := m.size_alloc ⟨.builtin b, .none⟩
      exact ih (made.bind (r := m.cells.size) (by omega) id b.name)
  have table := initial.newTable none
  have null := table.bind (table.constant_lt .null) 1 "null"
  have yes := null.bind (null.constant_lt .yes) 1 "true"
  exact bindBuiltins 1 _ (yes.bind (yes.constant_lt .no) 1 "false")

end Mirrors

end Machine

end SceneScript
