import Mathlib.Data.List.Pairwise
import SceneScript.Proofs.Grammar.Certificate

/-!
A check of tables: an automaton made from tables that pass it has a certificate.
-/

namespace SceneScript.Grammar

structure Tables where
  rules : List Rule
  analysis : Analysis
  states : List State
  lookaheads : Lookaheads

namespace Tables

def ofRules (rules : List Rule) : Tables :=
  let a := Analysis.ofRules rules
  let states := State.all a
  ⟨rules, a, states, a.lookaheads states⟩

variable (t : Tables)

def automaton : Automaton :=
  ⟨t.rules.toArray,
    (t.states.zipIdx.map fun (state, n) =>
      Row.ofState t.analysis t.lookaheads n state).toArray⟩

theorem automaton_ofRules (rules : List Rule) : (ofRules rules).automaton = .ofRules rules := rfl

def kernel (q : Nat) (state : State) : List Outlook := t.lookaheads.ofKernel q state.kernel

def outlooks (q : Nat) (state : State) : List Outlook :=
  let kernel := t.kernel q state
  let following := t.analysis.following kernel
  (t.analysis.closure state.kernel).map fun i => (i, Analysis.lookahead kernel following i)

def items (q : Nat) : List Outlook :=
  match t.states[q]? with
  | some state => t.outlooks q state
  | none => []

/-- The rules fit what is known of the beginnings of derivations, and unit rules end. -/
def rulesChecked : Bool :=
  let a := t.analysis
  (a.starts == t.rules.zipIdx.map fun (r, n) => (⟨n, r.head, 0, r.body⟩ : Item)) &&
    t.rules.all fun r =>
      (!vanish a.vanishing r.body || r.head.mem a.vanishing) &&
        included (firstOf a.vanishing a.first 0 r.body) (a.first.get r.head.ctorIdx) &&
        match r.body with
        | [] => decide (8 < (Symbol.nonterminal r.head).height)
        | [x] => decide (x.height < (Symbol.nonterminal r.head).height)
        | _ => true

def itemChecked (i : Item) : Bool :=
  match t.rules[i.rule]? with
  | some r => i.rest == r.body.drop i.dot && decide (i.dot ≤ r.body.length)
  | none => false

/-- Whatever is read next is predicted, with what can follow it. -/
def closed (predicted : SymbolSet) (following : SetTable) (o : Outlook) : Bool :=
  match o.1.rest with
  | .nonterminal n :: rest =>
    n.mem predicted &&
      included (firstOf t.analysis.vanishing t.analysis.first o.2 rest) (following.get n.ctorIdx)
  | _ => true

def find (items : List Outlook) (i : Item) : Option Outlook :=
  items.find? fun o => o.1.number == i.number

/-- An edge takes items of its state to the kernel of its target. -/
def edgeChecked (items : List Outlook) (e : Edge) : Bool :=
  decide (e.target ≠ 0) &&
    match t.states[e.target]? with
    | none => false
    | some target =>
      let kernel := t.kernel e.target target
      (target.kernel == e.items.map Item.next) && e.items.all fun i =>
        i.rest.head? == some e.symbol &&
          match find items i, find kernel i.next with
          | some o, some p => o.1 == i && p.1 == i.next && included o.2 p.2
          | _, _ => false

/-- Every item in front of a symbol goes over an edge. -/
def crosses (edges : List Edge) (o : Outlook) : Bool :=
  match o.1.rest with
  | [] => true
  | x :: _ =>
    match edges.find? (x == ·.symbol) with
    | some e => e.items.contains o.1
    | none => false

/-- At most one thing is done in front of every terminal. -/
def decided (edges : List Edge) (finished : List Outlook) : Bool :=
  finished.Pairwise (fun o p => o.2 &&& p.2 = 0) &&
    finished.all fun o => edges.all fun e =>
      match e.symbol with
      | .terminal t => !t.mem o.2
      | .nonterminal _ => true

/-- Only the text as a whole is followed by its end. -/
def endingChecked (items : List Outlook) (e : Edge) : Bool :=
  e.symbol != .terminal .endOfText || items.any fun o =>
    o.1.dot == 1 && t.rules[o.1.rule]?.any (·.body == whole)

/-- What begins in a state begins a part of another item, except at the start. -/
def placed (q : Nat) (i : Item) : Bool :=
  if q = 0 then i.dot == 0 else i.dot != 0 || (i.rest != [] && i.rest != whole)

def stateChecked (q : Nat) (state : State) : Bool :=
  let kernel := t.kernel q state
  let items := t.outlooks q state
  let predicted := t.analysis.predicted state.kernel
  let following := t.analysis.following kernel
  state.kernel.all t.itemChecked &&
    (t.analysis.openings state.kernel).all (fun i => (find kernel i).isNone) &&
    items.all (fun o => placed q o.1) &&
    items.all (t.closed predicted following) &&
    items.all (crosses state.edges) &&
    state.edges.all (t.edgeChecked items) &&
    state.edges.all (t.endingChecked items) &&
    decided state.edges (items.filter (·.1.rest.isEmpty))

def checked : Bool :=
  t.rulesChecked && t.states[0]?.any (fun state => state.kernel.any (·.rest == whole)) &&
    t.states.zipIdx.all fun (state, q) => t.stateChecked q state

section Checked

variable {t} {q : Nat} {state : State} {o : Outlook}

theorem row_eq (q : Nat) : t.automaton.row q =
    match t.states[q]? with
    | some state => Row.ofState t.analysis t.lookaheads q state
    | none => default := by
  simp only [Automaton.row, automaton, List.getElem?_toArray, List.getElem?_map,
    List.getElem?_zipIdx]
  cases t.states[q]? with
  | some state => simp
  | none => rfl

theorem row_of_state (found : t.states[q]? = some state) :
    t.automaton.row q = Row.ofState t.analysis t.lookaheads q state := by
  rw [row_eq, found]

theorem items_of_state (found : t.states[q]? = some state) : t.items q = t.outlooks q state := by
  rw [items, found]

theorem state_of_item (known : o ∈ t.items q) :
    ∃ state, t.states[q]? = some state ∧ o ∈ t.outlooks q state := by
  unfold items at known
  split at known
  · rename_i state found
    exact ⟨state, found, known⟩
  · cases known

theorem state_of_edge {x : Symbol} {target : Nat}
    (edge : (t.automaton.row q).edges.lookup x = some target) :
    ∃ state, t.states[q]? = some state := by
  rw [row_eq] at edge
  split at edge
  · exact ⟨_, by assumption⟩
  · cases edge

theorem lookup_edges (found : t.states[q]? = some state) (x : Symbol) :
    (t.automaton.row q).edges.lookup x =
      (state.edges.find? (x == ·.symbol)).map Edge.target := by
  rw [row_of_state found]
  simp only [Row.ofState]
  induction state.edges with
  | nil => rfl
  | cons e edges ih =>
    simp only [List.map_cons, List.lookup_cons, List.find?_cons]
    split
    · rfl
    · exact ih

theorem outlooks_eq : t.outlooks q state = (t.analysis.closure state.kernel).map fun i =>
    (i, Analysis.lookahead (t.kernel q state) (t.analysis.following (t.kernel q state)) i) := rfl

theorem mem_closure_of_mem (known : o ∈ t.outlooks q state) :
    o.1 ∈ t.analysis.closure state.kernel := by
  obtain ⟨i, member, rfl⟩ := List.mem_map.mp known
  exact member

theorem outlook_unique {p : Outlook} (known : o ∈ t.outlooks q state)
    (known' : p ∈ t.outlooks q state) (same : o.1 = p.1) : o = p := by
  obtain ⟨i, _, rfl⟩ := List.mem_map.mp known
  obtain ⟨j, _, rfl⟩ := List.mem_map.mp known'
  obtain rfl : i = j := same
  rfl

structure Facts (t : Tables) (q : Nat) (state : State) : Prop where
  kernel_rule : ∀ i ∈ state.kernel, t.itemChecked i = true
  opening_new : ∀ i ∈ t.analysis.openings state.kernel, find (t.kernel q state) i = none
  placed : ∀ o ∈ t.outlooks q state, placed q o.1 = true
  closed : ∀ o ∈ t.outlooks q state, t.closed (t.analysis.predicted state.kernel)
    (t.analysis.following (t.kernel q state)) o = true
  crosses : ∀ o ∈ t.outlooks q state, crosses state.edges o = true
  edge : ∀ e ∈ state.edges, t.edgeChecked (t.outlooks q state) e = true
  ending : ∀ e ∈ state.edges, t.endingChecked (t.outlooks q state) e = true
  decided : decided state.edges ((t.outlooks q state).filter (·.1.rest.isEmpty)) = true

theorem facts (checked : t.checked = true) (found : t.states[q]? = some state) :
    t.Facts q state := by
  simp only [Tables.checked, Bool.and_eq_true] at checked
  have here := List.all_eq_true.mp checked.2 (state, q) (List.mem_zipIdx_iff_getElem?.mpr found)
  simp only [stateChecked, Bool.and_eq_true, List.all_eq_true, Option.isNone_iff_eq_none] at here
  obtain ⟨⟨⟨⟨⟨⟨⟨rule, new⟩, placed⟩, closed⟩, crosses⟩, edge⟩, ending⟩, decided⟩ := here
  exact ⟨rule, new, placed, closed, crosses, edge, ending, decided⟩

theorem rule_facts (checked : t.checked = true) :
    t.analysis.starts = t.rules.zipIdx.map (fun (r, n) => (⟨n, r.head, 0, r.body⟩ : Item)) ∧
      ∀ r ∈ t.rules, (vanish t.analysis.vanishing r.body = true →
          r.head.mem t.analysis.vanishing = true) ∧
        included (firstOf t.analysis.vanishing t.analysis.first 0 r.body)
          (t.analysis.first.get r.head.ctorIdx) = true ∧
        (r.body = [] → 8 < (Symbol.nonterminal r.head).height) ∧
        ∀ x, r.body = [x] → x.height < (Symbol.nonterminal r.head).height := by
  simp only [Tables.checked, rulesChecked, Bool.and_eq_true, List.all_eq_true, beq_iff_eq]
    at checked
  obtain ⟨⟨⟨starts, each⟩, -⟩, -⟩ := checked
  refine ⟨starts, fun r member => ?_⟩
  obtain ⟨⟨vanishes, begins⟩, heights⟩ := each r member
  refine ⟨?_, begins, ?_, ?_⟩
  · intro isEmpty
    simpa [isEmpty] using vanishes
  · intro isEmpty
    simpa [isEmpty] using heights
  · intro x single
    simpa [single] using heights

theorem of_itemChecked {i : Item} (checked : t.itemChecked i = true) :
    ∃ r, i.Of t.automaton r := by
  unfold itemChecked at checked
  split at checked
  · rename_i r found
    simp only [Bool.and_eq_true, beq_iff_eq, decide_eq_true_eq] at checked
    exact ⟨r, by simpa [automaton] using found, checked.1, checked.2⟩
  · cases checked

theorem mem_starts_iff (checked : t.checked = true) {i : Item} :
    i ∈ t.analysis.starts ↔
      ∃ r, t.rules[i.rule]? = some r ∧ i.head = r.head ∧ i.dot = 0 ∧ i.rest = r.body := by
  rw [(rule_facts checked).1, List.mem_map]
  constructor
  · rintro ⟨⟨r, n⟩, member, rfl⟩
    exact ⟨r, List.mem_zipIdx_iff_getElem?.mp member, rfl, rfl, rfl⟩
  · rintro ⟨r, found, head, dot, rest⟩
    obtain ⟨n, h, d, b⟩ := i
    cases head
    cases dot
    cases rest
    exact ⟨(r, n), List.mem_zipIdx_iff_getElem?.mpr found, rfl⟩

theorem of_mem_starts (checked : t.checked = true) {i : Item} (member : i ∈ t.analysis.starts) :
    i.dot = 0 ∧ ∃ r, i.Of t.automaton r := by
  obtain ⟨r, found, -, dot, rest⟩ := (mem_starts_iff checked).mp member
  refine ⟨dot, r, by simpa [automaton] using found, ?_, ?_⟩
  · rw [rest, dot, List.drop_zero]
  · rw [dot]
    exact Nat.zero_le _

theorem mem_closure (i : Item) : i ∈ t.analysis.closure state.kernel ↔
    i ∈ state.kernel ∨ i ∈ t.analysis.openings state.kernel := List.mem_append

theorem start_of_opening {i : Item} (member : i ∈ t.analysis.openings state.kernel) :
    i ∈ t.analysis.starts := (List.mem_filter.mp member).1

theorem item_rule (checked : t.checked = true) (known : o ∈ t.items q) :
    ∃ r, o.1.Of t.automaton r := by
  obtain ⟨state, found, known⟩ := state_of_item known
  rcases (mem_closure _).mp (mem_closure_of_mem known) with member | member
  · exact of_itemChecked ((facts checked found).kernel_rule _ member)
  · exact (of_mem_starts checked (start_of_opening member)).2

theorem close (checked : t.checked = true) (known : o ∈ t.items q) {n : Nonterminal}
    {rest : List Symbol} (front : o.1.rest = .nonterminal n :: rest) {r : Rule}
    (member : r ∈ t.rules) (head : r.head = n) :
    ∃ p ∈ t.items q, p.1.dot = 0 ∧ p.1.Of t.automaton r ∧
      included (firstOf t.analysis.vanishing t.analysis.first o.2 rest) p.2 = true := by
  obtain ⟨state, found, known⟩ := state_of_item known
  have closed := (facts checked found).closed o known
  simp only [Tables.closed, front, Bool.and_eq_true] at closed
  obtain ⟨k, isRule⟩ := List.getElem?_of_mem member
  let i : Item := ⟨k, n, 0, r.body⟩
  have isStart : i ∈ t.analysis.starts :=
    (mem_starts_iff checked).mpr ⟨r, isRule, head.symm, rfl, rfl⟩
  have opens : i ∈ t.analysis.openings state.kernel := List.mem_filter.mpr ⟨isStart, closed.1⟩
  have new : (t.kernel q state).find? (·.1.number == i.number) = none :=
    (facts checked found).opening_new i opens
  refine ⟨(i, (t.analysis.following (t.kernel q state)).get n.ctorIdx), ?_, rfl,
    ⟨?_, rfl, Nat.zero_le _⟩, closed.2⟩
  · rw [items_of_state found, outlooks_eq]
    refine List.mem_map.mpr ⟨i, (mem_closure i).mpr (.inr opens), ?_⟩
    rw [Analysis.lookahead, new]
  · simpa [automaton, i] using isRule

theorem edge_facts (checked : t.checked = true) (found : t.states[q]? = some state) {e : Edge}
    (member : e ∈ state.edges) :
    e.target ≠ 0 ∧ ∃ target, t.states[e.target]? = some target ∧
      target.kernel = e.items.map Item.next ∧
      ∀ i ∈ e.items, i.rest.head? = some e.symbol ∧ ∃ s, (i, s) ∈ t.outlooks q state ∧
        ∃ p, find (t.kernel e.target target) i.next = some p ∧ p.1 = i.next ∧
          included s p.2 = true := by
  have fact := (facts checked found).edge e member
  simp only [edgeChecked, Bool.and_eq_true, decide_eq_true_eq] at fact
  refine ⟨fact.1, ?_⟩
  have leads := fact.2
  split at leads
  · cases leads
  · rename_i target isTarget
    simp only [Bool.and_eq_true, beq_iff_eq, List.all_eq_true] at leads
    refine ⟨target, isTarget, leads.1, fun i member => ?_⟩
    obtain ⟨front, moved⟩ := leads.2 i member
    refine ⟨front, ?_⟩
    split at moved
    · rename_i o p isItem isNext
      simp only [Bool.and_eq_true, beq_iff_eq] at moved
      obtain ⟨⟨rfl, sameNext⟩, within⟩ := moved
      exact ⟨o.2, List.mem_of_find?_eq_some isItem, p, isNext, sameNext, within⟩
    · cases moved

theorem mem_items_of_kernel (found : t.states[q]? = some state) {i : Item}
    (isKernel : find (t.kernel q state) i = some o) (same : o.1 = i) : o ∈ t.items q := by
  have member := List.mem_of_find?_eq_some isKernel
  obtain ⟨⟨j, n⟩, isIndexed, rfl⟩ := List.mem_map.mp member
  have inKernel : j ∈ state.kernel :=
    List.mem_of_getElem? (List.mem_zipIdx_iff_getElem?.mp isIndexed)
  rw [items_of_state found, outlooks_eq]
  refine List.mem_map.mpr ⟨j, (mem_closure j).mpr (.inl inKernel), ?_⟩
  have isFirst : (t.kernel q state).find? (·.1.number == j.number) = _ := same ▸ isKernel
  rw [Analysis.lookahead, isFirst]

theorem cross (checked : t.checked = true) (known : o ∈ t.items q) {x : Symbol}
    {rest : List Symbol} (front : o.1.rest = x :: rest) :
    ∃ q', (t.automaton.row q).edges.lookup x = some q' ∧ ∃ p ∈ t.items q', p.1 = o.1.next ∧
      included o.2 p.2 = true := by
  obtain ⟨state, found, known⟩ := state_of_item known
  have crosses := (facts checked found).crosses o known
  simp only [Tables.crosses, front] at crosses
  split at crosses
  · rename_i e isEdge
    have member := List.mem_of_find?_eq_some isEdge
    obtain ⟨-, target, isTarget, -, each⟩ := edge_facts checked found member
    obtain ⟨-, s, known', p, isKernel, moved, within⟩ :=
      each o.1 (List.contains_iff_mem.mp crosses)
    obtain rfl : s = o.2 := congrArg Prod.snd (outlook_unique known' known rfl)
    refine ⟨e.target, ?_, p, mem_items_of_kernel isTarget isKernel moved, moved, within⟩
    rw [lookup_edges found, isEdge]
    rfl
  · cases crosses

theorem back (checked : t.checked = true) {x : Symbol} {target : Nat}
    (edge : (t.automaton.row q).edges.lookup x = some target) :
    target ≠ 0 ∧ ∀ p ∈ t.items target, p.1.dot = 0 ∨
      ∃ o ∈ t.items q, o.1.rest.head? = some x ∧ p.1 = o.1.next := by
  obtain ⟨state, found⟩ := state_of_edge edge
  rw [lookup_edges found, Option.map_eq_some_iff] at edge
  obtain ⟨e, isEdge, rfl⟩ := edge
  have symbol : x = e.symbol := by simpa using List.find?_some isEdge
  obtain ⟨notFirst, state', isTarget, kernel, each⟩ :=
    edge_facts checked found (List.mem_of_find?_eq_some isEdge)
  refine ⟨notFirst, fun p known => ?_⟩
  rw [items_of_state isTarget] at known
  rcases (mem_closure _).mp (mem_closure_of_mem known) with member | member
  · rw [kernel] at member
    obtain ⟨i, isMoved, moved⟩ := List.mem_map.mp member
    obtain ⟨front, s, known', -⟩ := each i isMoved
    refine .inr ⟨(i, s), ?_, symbol ▸ front, moved.symm⟩
    rwa [items_of_state found]
  · exact .inl (of_mem_starts checked (start_of_opening member)).1

theorem reductions_eq (found : t.states[q]? = some state) :
    (t.automaton.row q).reductions =
      ((t.outlooks q state).filter (·.1.rest.isEmpty)).map fun o => (o.1.rule, o.2) := by
  rw [row_of_state found, outlooks_eq, List.filter_map, List.map_map]
  rfl

/-- Only one finished item can be followed by a terminal, and then there is no edge for it. -/
theorem finished_unique (checked : t.checked = true) (found : t.states[q]? = some state)
    {w : Terminal} (known : o ∈ t.outlooks q state) (finished : o.1.rest = [])
    (follows : w.mem o.2 = true) :
    (t.automaton.row q).edges.lookup (.terminal w) = none ∧
      ∀ p ∈ t.outlooks q state, p.1.rest = [] → w.mem p.2 = true → p = o := by
  have decided := (facts checked found).decided
  simp only [Tables.decided, Bool.and_eq_true, decide_eq_true_eq, List.all_eq_true] at decided
  have isFinished {p : Outlook} (known : p ∈ t.outlooks q state) (finished : p.1.rest = []) :
      p ∈ (t.outlooks q state).filter (·.1.rest.isEmpty) :=
    List.mem_filter.mpr ⟨known, by rw [finished]; rfl⟩
  constructor
  · rw [lookup_edges found, Option.map_eq_none_iff]
    refine List.find?_eq_none.mpr fun e member same => ?_
    have apart := decided.2 o (isFinished known finished) e member
    rw [← beq_iff_eq.mp same] at apart
    simp [follows] at apart
  · intro p known' finished' follows'
    have symmetric : Std.Symm fun o p : Outlook => o.2 &&& p.2 = 0 :=
      ⟨fun _ _ disjoint => by rw [Nat.and_comm]; exact disjoint⟩
    by_contra differ
    have disjoint := decided.1.forall (isFinished known' finished') (isFinished known finished)
      differ
    have both : (p.2 &&& o.2).testBit w.ctorIdx = true := by
      rw [Nat.testBit_and, Bool.and_eq_true]
      exact ⟨follows', follows⟩
    simp [disjoint] at both

theorem reduce (checked : t.checked = true) (known : o ∈ t.items q) {r : Rule}
    (isOf : o.1.Of t.automaton r) (finished : o.1.rest = []) {w : Terminal}
    (follows : w.mem o.2 = true) : t.automaton.action? q w = some (.reduce r) := by
  obtain ⟨state, found, known⟩ := state_of_item known
  obtain ⟨noEdge, unique⟩ := finished_unique checked found known finished follows
  have isFound : (t.automaton.row q).reductions.find? (fun entry => w.mem entry.2) =
      some (o.1.rule, o.2) := by
    rw [reductions_eq found, List.find?_map, Option.map_eq_some_iff]
    refine ⟨o, ?_, rfl⟩
    have isFinished : o ∈ (t.outlooks q state).filter (·.1.rest.isEmpty) :=
      List.mem_filter.mpr ⟨known, by rw [finished]; rfl⟩
    cases isFirst : ((t.outlooks q state).filter (·.1.rest.isEmpty)).find?
        ((fun entry => w.mem entry.2) ∘ fun o => (o.1.rule, o.2)) with
    | none => exact absurd follows (List.find?_eq_none.mp isFirst o isFinished)
    | some p =>
      obtain ⟨known', isEmpty⟩ := List.mem_filter.mp (List.mem_of_find?_eq_some isFirst)
      have follows' : w.mem p.2 = true := by simpa using List.find?_some isFirst
      rw [unique p known' (List.isEmpty_iff.mp isEmpty) follows']
  simp only [Automaton.action?, noEdge]
  change ((t.automaton.row q).reductions.find? (fun entry => w.mem entry.2)).bind _ = _
  rw [isFound, Option.bind_some, isOf.1]
  rfl

theorem reduced (checked : t.checked = true) {w : Terminal} {r : Rule}
    (action : t.automaton.action? q w = some (.reduce r)) :
    ∃ o ∈ t.items q, o.1.Of t.automaton r ∧ o.1.rest = [] := by
  simp only [Automaton.action?] at action
  split at action
  · cases action
  · obtain ⟨reduction, isFound, isRule⟩ := Option.bind_eq_some_iff.mp action
    obtain ⟨r', found, same⟩ := Option.map_eq_some_iff.mp isRule
    cases same
    have member := List.mem_of_find?_eq_some isFound
    cases isState : t.states[q]? with
    | none =>
      rw [row_eq, isState] at member
      cases member
    | some state =>
      rw [reductions_eq isState] at member
      obtain ⟨o, isFinished, rfl⟩ := List.mem_map.mp member
      obtain ⟨known, isEmpty⟩ := List.mem_filter.mp isFinished
      rw [← items_of_state isState] at known
      obtain ⟨r'', isOf⟩ := item_rule checked known
      obtain rfl := Option.some.inj (isOf.1.symm.trans found)
      exact ⟨o, known, isOf, List.isEmpty_iff.mp isEmpty⟩

theorem placed_of_item (checked : t.checked = true) (known : o ∈ t.items q) :
    placed q o.1 = true := by
  obtain ⟨state, found, known⟩ := state_of_item known
  exact (facts checked found).placed o known

theorem start (checked : t.checked = true) : ∃ o ∈ t.items 0, o.1.rest = whole := by
  simp only [Tables.checked, Bool.and_eq_true, Option.any_eq_true] at checked
  obtain ⟨⟨-, state, found, any⟩, -⟩ := checked
  obtain ⟨i, member, front⟩ := List.any_eq_true.mp any
  rw [items_of_state found, outlooks_eq]
  exact ⟨_, List.mem_map_of_mem ((mem_closure i).mpr (.inl member)), beq_iff_eq.mp front⟩

theorem ending (checked : t.checked = true) {target : Nat}
    (edge : (t.automaton.row q).edges.lookup (.terminal .endOfText) = some target) :
    ∃ o ∈ t.items q, o.1.dot = 1 ∧ ∃ r, o.1.Of t.automaton r ∧ r.body = whole := by
  obtain ⟨state, found⟩ := state_of_edge edge
  rw [lookup_edges found, Option.map_eq_some_iff] at edge
  obtain ⟨e, isEdge, -⟩ := edge
  have symbol : .terminal .endOfText = e.symbol := by simpa using List.find?_some isEdge
  have fact := (facts checked found).ending e (List.mem_of_find?_eq_some isEdge)
  rw [endingChecked, ← symbol, bne_self_eq_false, Bool.false_or, List.any_eq_true] at fact
  obtain ⟨o, known, isWhole⟩ := fact
  simp only [Bool.and_eq_true, beq_iff_eq, Option.any_eq_true] at isWhole
  obtain ⟨dot, r, isRule, body⟩ := isWhole
  rw [← items_of_state found] at known
  obtain ⟨r', isOf⟩ := item_rule checked known
  have same := isOf.1
  simp only [automaton, List.getElem?_toArray, isRule] at same
  obtain rfl := Option.some.inj same
  exact ⟨o, known, dot, r, isOf, body⟩

theorem bottom (checked : t.checked = true) (known : o ∈ t.items q) {r : Rule}
    (isOf : o.1.Of t.automaton r) (dot : o.1.dot = 0) (body : r.body = whole ∨ r.body = []) :
    q = 0 := by
  have isPlaced := placed_of_item checked known
  have rest : o.1.rest = r.body := by rw [isOf.2.1, dot, List.drop_zero]
  by_contra notFirst
  rw [placed, if_neg notFirst, dot, rest] at isPlaced
  rcases body with body | body <;> simp [body] at isPlaced

theorem certificate (checked : t.checked = true) :
    Certificate t.automaton t.analysis.vanishing t.analysis.first t.items where
  beginnings := ⟨fun r member => ((rule_facts checked).2 r member).1,
    fun r member => ((rule_facts checked).2 r member).2.1⟩
  higher r member := ((rule_facts checked).2 r member).2.2.2
  empty_high r member := ((rule_facts checked).2 r member).2.2.1
  item_rule q o known := item_rule checked known
  start := start checked
  initial o known := by
    simpa [placed] using placed_of_item checked known
  close q o known n rest front r member head := close checked known front member head
  cross q o known x rest front := cross checked known front
  reduce q o known r isOf finished w follows := reduce checked known isOf finished follows
  reduced q w r action := reduced checked action
  edge_target q x target edge := (back checked edge).1
  back q x target edge := (back checked edge).2
  ending q target edge := ending checked edge
  bottom q o known r isOf dot body := bottom checked known isOf dot body

end Checked

end Tables

end SceneScript.Grammar
