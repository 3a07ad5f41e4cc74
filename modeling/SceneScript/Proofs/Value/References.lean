import SceneScript.Proofs.Eval.Making

/-!
Which values a machine holds, and values that it keeps secret: nothing holds them, so that nothing
but who made them can get at them.
-/

namespace SceneScript

namespace Table

theorem snd_of_mem_bindIn {name : Name} {value : Ref} {entries : List (Name × Ref)}
    {entry : Name × Ref} (member : entry ∈ bindIn name value entries) :
    entry ∈ entries ∨ entry.2 = value := by
  induction entries with
  | nil =>
    rw [bindIn, List.mem_singleton] at member
    exact .inr (by rw [member])
  | cons first rest ih =>
    rw [bindIn] at member
    split at member
    · rcases List.mem_cons.mp member with rfl | later
      · exact .inr rfl
      · exact .inl (List.mem_cons_of_mem _ later)
    · rcases List.mem_cons.mp member with rfl | later
      · exact .inl List.mem_cons_self
      · exact (ih later).imp_left (List.mem_cons_of_mem _)

theorem mem_of_lookup {name : Name} {value : Ref} {entries : List (Name × Ref)}
    (found : entries.lookup name = some value) : (name, value) ∈ entries := by
  induction entries with
  | nil => cases found
  | cons first rest ih =>
    obtain ⟨other, r⟩ := first
    rw [List.lookup_cons] at found
    split at found
    · rename_i same
      cases found
      rw [eq_of_beq same]
      exact List.mem_cons_self
    · exact List.mem_cons_of_mem _ (ih found)

theorem lookup_bindIn_self (name : Name) (value : Ref) (entries : List (Name × Ref)) :
    (bindIn name value entries).lookup name = some value := by
  induction entries with
  | nil => simp [bindIn]
  | cons first rest ih =>
    obtain ⟨n, v⟩ := first
    rw [bindIn]
    by_cases here : n = name
    · simp [here]
    · rw [if_neg here, List.lookup_cons, beq_false_of_ne (Ne.symm here)]
      exact ih

theorem lookup_bindIn_of_ne {name other : Name} (differ : other ≠ name) (value : Ref)
    (entries : List (Name × Ref)) :
    (bindIn name value entries).lookup other = entries.lookup other := by
  induction entries with
  | nil => rw [bindIn, List.lookup_cons, beq_false_of_ne differ]
  | cons first rest ih =>
    obtain ⟨n, v⟩ := first
    rw [bindIn]
    by_cases here : n = name
    · rw [if_pos here, List.lookup_cons, List.lookup_cons, here, beq_false_of_ne differ]
    · rw [if_neg here, List.lookup_cons, List.lookup_cons, ih]

theorem own?_bind (t : Table) (name other : Name) (value : Ref) :
    (t.bind name value).own? other = if other = name then some value else t.own? other := by
  by_cases same : other = name
  · rw [if_pos same, same]
    exact lookup_bindIn_self name value t.entries
  · rw [if_neg same]
    exact lookup_bindIn_of_ne same value t.entries

end Table

namespace Machine

variable {m : Machine} {r s : Ref} {c : Cell}

theorem table_bind_of_ne {id other : TableId} (differ : other ≠ id) (name : Name) :
    (m.bind id name r).table other = m.table other := by
  rw [table, table, bind, Array.getElem?_modify, if_neg (Ne.symm differ)]

theorem table_bind_self {id : TableId} (existed : id < m.tables.size) (name : Name) :
    (m.bind id name r).table id = (m.table id).bind name r := by
  rw [table, table, bind, Array.getElem?_modify, if_pos rfl, Array.getElem?_eq_getElem existed]
  rfl

/-- The tables behind a table do not know what is bound in it. -/
theorem lookup_bind_of_lt {id other : TableId} (older : other < id) (name sought : Name) :
    (m.bind id name r).lookup other sought = m.lookup other sought := by
  induction other using Nat.strongRecOn with
  | ind other ih =>
    rw [lookup, lookup, table_bind_of_ne (Nat.ne_of_lt older)]
    split
    · rfl
    · split
      · split
        · rename_i parent _ behind
          exact ih parent behind (Nat.lt_trans behind older)
        · rfl
      · rfl

theorem lookup_bind {id : TableId} (existed : id < m.tables.size) (name sought : Name) :
    (m.bind id name r).lookup id sought = if sought = name then some r else m.lookup id sought := by
  rw [lookup, table_bind_self existed, Table.own?_bind]
  by_cases same : sought = name
  · rw [if_pos same, if_pos same]
  · rw [if_neg same, if_neg same, lookup]
    have parent : ((m.table id).bind name r).parent = (m.table id).parent := rfl
    rw [parent]
    cases (m.table id).own? sought with
    | some value => rfl
    | none =>
      cases (m.table id).parent with
      | none => rfl
      | some parent =>
        by_cases behind : parent < id
        · simp only [behind, if_true]
          exact lookup_bind_of_lt behind name sought
        · simp only [behind, if_false]

/-- A variable or a list holds the value. -/
def Held (m : Machine) (r : Ref) : Prop :=
  (∃ (id : TableId) (t : Table), m.tables[id]? = some t ∧ ∃ entry ∈ t.entries, entry.2 = r) ∨
    ∃ (s : Ref) (c : Cell), m.cells[s]? = some c ∧ r ∈ c.content.elements

theorem held_of_elements (member : r ∈ (m.cell s).content.elements) : m.Held r := by
  rw [cell] at member
  cases there : m.cells[s]? with
  | none =>
    rw [there] at member
    cases member
  | some c =>
    rw [there] at member
    exact .inr ⟨s, c, there, member⟩

theorem held_of_lookup {id : TableId} {name : Name} (found : m.lookup id name = some r) :
    m.Held r := by
  fun_induction lookup m id name with
  | case1 id value own =>
    cases found
    have member := Table.mem_of_lookup own
    rw [table] at member
    cases there : m.tables[id]? with
    | none =>
      rw [there] at member
      cases member
    | some t =>
      rw [there] at member
      exact .inl ⟨id, t, there, _, member, rfl⟩
  | case2 id _ parent _ _ ih => exact ih found
  | case3 => cases found
  | case4 => cases found

theorem held_alloc (held : (m.alloc c).2.Held r) : m.Held r ∨ r ∈ c.content.elements := by
  rcases held with bound | ⟨s, d, there, member⟩
  · exact .inl (.inl bound)
  · rw [getElem?_alloc] at there
    split at there
    · cases there
      exact .inr member
    · exact .inl (.inr ⟨s, d, there, member⟩)

theorem held_newTable {parent : Option TableId} (held : (m.newTable parent).2.Held r) :
    m.Held r := by
  rcases held with ⟨id, t, there, entry, member, same⟩ | listed
  · rw [newTable, Array.getElem?_push] at there
    split at there
    · cases there
      cases member
    · exact .inl ⟨id, t, there, entry, member, same⟩
  · exact .inr listed

theorem held_bind {id : TableId} {name : Name} (held : (m.bind id name s).Held r) :
    m.Held r ∨ r = s := by
  rcases held with ⟨i, t, there, entry, member, rfl⟩ | listed
  · simp only [bind, Array.getElem?_modify] at there
    split at there
    · obtain ⟨old, existed, rfl⟩ := Option.map_eq_some_iff.mp there
      rcases Table.snd_of_mem_bindIn member with before | new
      · exact .inl (.inl ⟨i, old, existed, entry, before, rfl⟩)
      · exact .inr new
    · exact .inl (.inl ⟨i, t, there, entry, member, rfl⟩)
  · exact .inl (.inr listed)

theorem held_modify {f : Cell → Cell} (same : ∀ c, (f c).content = c.content)
    (held : { m with cells := m.cells.modify s f }.Held r) : m.Held r := by
  rcases held with bound | ⟨i, c, there, member⟩
  · exact .inl bound
  · simp only [Array.getElem?_modify] at there
    split at there
    · obtain ⟨old, existed, rfl⟩ := Option.map_eq_some_iff.mp there
      rw [same] at member
      exact .inr ⟨i, old, existed, member⟩
    · exact .inr ⟨i, c, there, member⟩

/-- The secret values are as described, and what the machine holds exists and is no secret. -/
structure Sealed (secret : Ref → Option Cell) (m : Machine) : Prop where
  there : ∀ r c, secret r = some c → m.cells[r]? = some c
  held : ∀ r, m.Held r → r < m.cells.size ∧ secret r = none

/-- Everything that the machine holds exists. -/
def Closed (m : Machine) : Prop := m.Sealed fun _ => none

namespace Sealed

variable {secret : Ref → Option Cell}

theorem lt_size (kept : m.Sealed secret) (is : secret r = some c) : r < m.cells.size :=
  (Array.getElem?_eq_some_iff.mp (kept.there r c is)).1

theorem secret_eq_none (kept : m.Sealed secret) (new : m.cells.size ≤ r) : secret r = none := by
  cases is : secret r with
  | none => rfl
  | some c => exact absurd (kept.lt_size is) (Nat.not_lt.mpr new)

theorem weaken {fewer : Ref → Option Cell} (kept : m.Sealed secret)
    (less : ∀ r c, fewer r = some c → secret r = some c) : m.Sealed fewer where
  there r c is := kept.there r c (less r c is)
  held r holds := by
    obtain ⟨existed, unsealed⟩ := kept.held r holds
    refine ⟨existed, ?_⟩
    cases is : fewer r with
    | none => rfl
    | some c =>
      rw [less r c is] at unsealed
      cases unsealed

theorem closed (kept : m.Sealed secret) : m.Closed := kept.weaken fun _ _ is => nomatch is

theorem alloc (kept : m.Sealed secret)
    (known : ∀ s ∈ c.content.elements, s < m.cells.size ∧ secret s = none) :
    (m.alloc c).2.Sealed secret where
  there s d is := getElem?_alloc_of_there (kept.there s d is) c
  held s holds := by
    have before := (held_alloc holds).elim (kept.held s) (known s)
    rw [size_alloc]
    exact ⟨Nat.lt_succ_of_lt before.1, before.2⟩

/-- A new value that nothing holds is a further secret. -/
theorem conceal (kept : m.Sealed secret)
    (known : ∀ s ∈ c.content.elements, s < m.cells.size ∧ secret s = none) :
    (m.alloc c).2.Sealed fun s => if s = m.cells.size then some c else secret s where
  there s d is := by
    rw [getElem?_alloc]
    split at is
    · rw [if_pos ‹_›, is]
    · rw [if_neg ‹_›]
      exact kept.there s d is
  held s holds := by
    have before := (held_alloc holds).elim (kept.held s) (known s)
    rw [size_alloc, if_neg (Nat.ne_of_lt before.1)]
    exact ⟨Nat.lt_succ_of_lt before.1, before.2⟩

theorem bind (kept : m.Sealed secret) (known : s < m.cells.size ∧ secret s = none)
    (id : TableId) (name : Name) : (m.bind id name s).Sealed secret where
  there := kept.there
  held i holds := by
    rcases held_bind holds with before | rfl
    · exact kept.held i before
    · exact known

theorem newTable (kept : m.Sealed secret) (parent : Option TableId) :
    (m.newTable parent).2.Sealed secret where
  there := kept.there
  held i holds := kept.held i (held_newTable holds)

theorem modify (kept : m.Sealed secret) (known : secret s = none) {f : Cell → Cell}
    (same : ∀ c, (f c).content = c.content) :
    { m with cells := m.cells.modify s f }.Sealed secret where
  there i d is := by
    have other : s ≠ i := by
      rintro rfl
      rw [known] at is
      cases is
    show (m.cells.modify s f)[i]? = some d
    rw [Array.getElem?_modify, if_neg other]
    exact kept.there i d is
  held i holds := by
    show i < (m.cells.modify s f).size ∧ _
    rw [Array.size_modify]
    exact kept.held i (held_modify same holds)

theorem aside {m' : Machine} (kept : m.Sealed secret) (cells : m'.cells = m.cells)
    (tables : m'.tables = m.tables) : m'.Sealed secret where
  there r c is := by
    rw [cells]
    exact kept.there r c is
  held r holds := by
    rw [Held, cells, tables] at holds
    rw [cells]
    exact kept.held r holds

theorem elements (kept : m.Sealed secret) (r : Ref) :
    ∀ s ∈ (m.cell r).content.elements, s < m.cells.size ∧ secret s = none :=
  fun s member => kept.held s (held_of_elements member)

/-- A copy of a value is a further secret, wherever it is placed. -/
theorem conceal_copy (kept : m.Sealed secret) (there : m.cells[r]? = some c) (span : Span) :
    (m.alloc (c.atSpan span)).2.Sealed fun s =>
      if s = m.cells.size then some (c.atSpan span) else secret s := by
  refine kept.conceal fun s member => kept.elements r s ?_
  rw [cell_of_getElem? there]
  exact member

end Sealed

theorem closed_initial : initial.Closed where
  there _ _ is := nomatch is
  held r holds := by
    rcases holds with ⟨id, t, there, entry, member, -⟩ | ⟨s, c, there, member⟩
    · obtain ⟨within, rfl⟩ := Array.getElem?_eq_some_iff.mp there
      obtain rfl : id = 0 := Nat.lt_one_iff.mp within
      cases member
    · obtain ⟨within, rfl⟩ := Array.getElem?_eq_some_iff.mp there
      match s, within with
      | 0, _ | 1, _ | 2, _ => cases member

theorem closed_bindBuiltin (closed : m.Closed) (id : TableId) (b : Builtin) :
    (m.bindBuiltin id b).Closed := by
  refine Sealed.bind (Sealed.alloc closed (by simp [Content.elements])) ⟨?_, rfl⟩ id b.name
  rw [size_alloc]
  exact Nat.lt_succ_self _

/-- In a context for whole programs, everything that is bound exists. -/
theorem closed_programContext (builtins : List Builtin) (closed : m.Closed)
    (constants : 3 ≤ m.cells.size) : (m.programContext builtins).2.Closed := by
  have bound {m : Machine} (closed : m.Closed) (id : TableId) (bs : List Builtin) :
      (bs.foldl (·.bindBuiltin id) m).Closed := by
    induction bs generalizing m with
    | nil => exact closed
    | cons b bs ih => exact ih (m.closed_bindBuiltin closed id b)
  have constant (c : Constant) : constant c < m.cells.size := by
    refine Nat.lt_of_lt_of_le ?_ constants
    cases c <;> decide
  refine bound ?_ _ _
  refine Sealed.bind (Sealed.bind (Sealed.bind (Sealed.newTable closed none) ?_ _ _) ?_ _ _) ?_ _ _
  · exact ⟨constant .null, rfl⟩
  · exact ⟨constant .yes, rfl⟩
  · exact ⟨constant .no, rfl⟩

end Machine

end SceneScript
