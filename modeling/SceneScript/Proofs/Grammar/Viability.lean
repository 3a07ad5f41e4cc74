import SceneScript.Proofs.Grammar.Language
import SceneScript.Proofs.Parse.Terminal

/-!
The automaton stops as early as it can: what it has read without a fault is the beginning of a text
that the rules derive. Every item of its states takes part in such a derivation, since what an item
still has to read can be derived, and what the item then completes is what another item of the state
in which it began wants to read next.
-/

namespace SceneScript

/-- A fold over two lists is one over the first and then one over the second. -/
theorem exists_of_foldlM_append_eq_ok {α β ε : Type} {step : β → α → Except ε β} {xs ys : List α}
    {b c : β} (ran : (xs ++ ys).foldlM step b = .ok c) :
    ∃ d, xs.foldlM step b = .ok d ∧ ys.foldlM step d = .ok c := by
  rw [List.foldlM_append] at ran
  cases first : xs.foldlM step b with
  | error e =>
    rw [first] at ran
    cases ran
  | ok d =>
    rw [first] at ran
    exact ⟨d, rfl, ran⟩

namespace Grammar

namespace Derivation

variable {rules : List Rule}

theorem exists_all_relabelled {ds : List Derivation}
    (each : ∀ d ∈ ds, ∀ ls : List Lexeme,
      ls.map Lexeme.terminal = d.lexemes.map Lexeme.terminal →
        ∃ e : Derivation, e.Valid rules ∧ e.symbol = d.symbol ∧ e.lexemes = ls)
    {ls : List Lexeme} (same : ls.map Lexeme.terminal = (allLexemes ds).map Lexeme.terminal) :
    ∃ es : List Derivation, (∀ e ∈ es, e.Valid rules) ∧ es.map symbol = ds.map symbol ∧
      allLexemes es = ls := by
  induction ds generalizing ls with
  | nil =>
    obtain rfl := List.map_eq_nil_iff.mp same
    exact ⟨[], by simp, rfl, rfl⟩
  | cons d ds ih =>
    obtain ⟨here, others⟩ := List.forall_mem_cons.mp each
    rw [allLexemes, List.map_append] at same
    obtain ⟨ks, ls, rfl, front, back⟩ := List.map_eq_append_iff.mp same
    obtain ⟨e, valid, symbol, rfl⟩ := here ks front
    obtain ⟨es, validAll, symbols, rfl⟩ := ih others back
    refine ⟨e :: es, List.forall_mem_cons.mpr ⟨valid, validAll⟩, ?_, rfl⟩
    rw [List.map_cons, List.map_cons, symbol, symbols]

/-- Derivations see the terminals of their lexemes only. -/
theorem Valid.exists_relabelled {d : Derivation} (valid : d.Valid rules) {ls : List Lexeme}
    (same : ls.map Lexeme.terminal = d.lexemes.map Lexeme.terminal) :
    ∃ e : Derivation, e.Valid rules ∧ e.symbol = d.symbol ∧ e.lexemes = ls := by
  induction valid generalizing ls with
  | leaf l =>
    obtain ⟨k, rfl, terminal⟩ := List.map_eq_singleton_iff.mp same
    exact ⟨.leaf k, .leaf k, congrArg Symbol.terminal terminal, rfl⟩
  | @branch rule parts member fits _ ih =>
    obtain ⟨es, valid, symbols, lexemes⟩ := exists_all_relabelled (fun d part _ => ih d part) same
    exact ⟨.branch rule es, .branch member (symbols.trans fits) valid, rfl, lexemes⟩

end Derivation

/-- The rules derive a text with these terminals. -/
def Derivable (ws : List Terminal) : Prop :=
  ∃ d : Derivation, d.Valid rules ∧ d.symbol = .nonterminal .start ∧
    d.lexemes.map Lexeme.terminal = ws

/-- The rules derive a text that begins with these terminals. -/
def Viable (ws : List Terminal) : Prop := ∃ more, Derivable (ws ++ more)

/-- Something can be derived from the symbol. -/
def Productive (rules : List Rule) (x : Symbol) : Prop :=
  ∃ d : Derivation, d.Valid rules ∧ d.symbol = x

section Productive

variable {rules : List Rule}

theorem Productive.exists_all {xs : List Symbol} (each : ∀ x ∈ xs, Productive rules x) :
    ∃ ds : List Derivation, (∀ d ∈ ds, d.Valid rules) ∧ ds.map Derivation.symbol = xs := by
  induction xs with
  | nil => exact ⟨[], by simp, rfl⟩
  | cons x xs ih =>
    obtain ⟨⟨d, valid, symbol⟩, others⟩ := List.forall_mem_cons.mp each
    obtain ⟨ds, validAll, symbols⟩ := ih others
    refine ⟨d :: ds, List.forall_mem_cons.mpr ⟨valid, validAll⟩, ?_⟩
    rw [List.map_cons, symbol, symbols]

theorem productive_terminal (w : Terminal) : Productive rules (.terminal w) :=
  ⟨.leaf ⟨w, [], 0, 0⟩, .leaf _, rfl⟩

/-- The symbol is a terminal or one of these. -/
def Symbol.among (known : List Nonterminal) : Symbol → Bool
  | .terminal _ => true
  | .nonterminal n => known.contains n

/-- One more round over the rules: a head is productive if all symbols of a body are. -/
def produce (rules : List Rule) (known : List Nonterminal) : List Nonterminal :=
  rules.foldr (fun r known => if r.body.all (·.among known) then r.head :: known else known) known

theorem productive_of_produce {known : List Nonterminal}
    (each : ∀ n ∈ known, Productive rules (.nonterminal n)) :
    ∀ n ∈ produce rules known, Productive rules (.nonterminal n) := by
  have rounds : ∀ rs, (∀ r ∈ rs, r ∈ rules) →
      ∀ n ∈ produce rs known, Productive rules (.nonterminal n) := by
    intro rs members
    induction rs with
    | nil => exact each
    | cons r rs ih =>
      obtain ⟨member, others⟩ := List.forall_mem_cons.mp members
      intro n produced
      rw [produce, List.foldr_cons] at produced
      split at produced
      · rename_i ready
        rcases List.mem_cons.mp produced with rfl | earlier
        · have parts : ∀ x ∈ r.body, Productive rules x := by
            intro x part
            have isReady := List.all_eq_true.mp ready x part
            cases x with
            | terminal w => exact productive_terminal w
            | nonterminal m => exact ih others m (List.contains_iff_mem.mp isReady)
          obtain ⟨ds, valid, fits⟩ := Productive.exists_all parts
          exact ⟨.branch r ds, .branch member fits valid, rfl⟩
        · exact ih others n earlier
      · exact ih others n produced
  exact rounds rules fun _ member => member

end Productive

theorem productive (x : Symbol) : Productive rules x := by
  cases x with
  | terminal w => exact productive_terminal w
  | nonterminal n =>
    have first := @productive_of_produce rules [] (by simp)
    have third := productive_of_produce (productive_of_produce first)
    have all : ∀ n ∈ Nonterminal.all, n ∈ produce rules (produce rules (produce rules [])) := by
      decide +kernel
    exact third n (all n (by cases n <;> decide))

/-- Every item of a state has begun there because of another one, except for the whole text. -/
structure Anchored (m : Automaton) (items : Nat → List Outlook) : Prop where
  head : ∀ q, ∀ o ∈ items q, ∀ r, o.1.Of m r → r.head = o.1.head
  /-- From one item to the other, heads come earlier in the order of nonterminals. -/
  predicted : ∀ q, ∀ o ∈ items q, o.1.dot = 0 → o.1.rest = whole ∨ ∃ p ∈ items q,
    p.1.rest.head? = some (.nonterminal o.1.head) ∧
      (p.1.dot = 0 → p.1.head.ctorIdx < o.1.head.ctorIdx)
  /-- An edge is there because an item goes it. -/
  crossed : ∀ q x q', (m.row q).edges.lookup x = some q' → ∃ o ∈ items q, o.1.rest.head? = some x

namespace Tables

variable (t : Tables)

/-- What an item predicts, unless its head comes later. -/
def prediction? (i : Item) : Option Nonterminal :=
  match i.rest with
  | .nonterminal n :: _ =>
    if i.dot != 0 || decide (i.head.ctorIdx < n.ctorIdx) then some n else none
  | _ => none

def itemAnchored (predictions : List Nonterminal) (i : Item) : Bool :=
  t.rules[i.rule]?.any (·.head == i.head) &&
    (i.dot != 0 || i.rest == whole || predictions.contains i.head)

def stateAnchored (state : State) : Bool :=
  let items := t.analysis.closure state.kernel
  items.all (t.itemAnchored (items.filterMap prediction?)) &&
    state.edges.all fun e => !e.items.isEmpty

def anchored : Bool := t.states.all t.stateAnchored

variable {t}

theorem prediction?_eq_some_iff {i : Item} {n : Nonterminal} : prediction? i = some n ↔
    i.rest.head? = some (.nonterminal n) ∧ (i.dot = 0 → i.head.ctorIdx < n.ctorIdx) := by
  unfold prediction?
  split <;> grind [List.head?_eq_some_iff]

section Anchored

variable {q : Nat} {state : State}

theorem anchored_state (anchored : t.anchored = true) (found : t.states[q]? = some state) :
    (∀ i ∈ t.analysis.closure state.kernel,
      t.itemAnchored ((t.analysis.closure state.kernel).filterMap prediction?) i = true) ∧
      ∀ e ∈ state.edges, e.items ≠ [] := by
  have fact : t.stateAnchored state = true :=
    List.all_eq_true.mp anchored state (List.mem_of_getElem? found)
  simp only [stateAnchored, Bool.and_eq_true, List.all_eq_true] at fact
  exact ⟨fact.1, fun e member => by simpa using fact.2 e member⟩

theorem anchored_item (anchored : t.anchored = true) {o : Outlook} (known : o ∈ t.items q)
    {r : Rule} (isOf : o.1.Of t.automaton r) : r.head = o.1.head ∧ (o.1.dot = 0 →
      o.1.rest = whole ∨ ∃ p ∈ t.items q, prediction? p.1 = some o.1.head) := by
  obtain ⟨state, found, known⟩ := state_of_item known
  have isRule : t.rules[o.1.rule]? = some r := by simpa [automaton] using isOf.1
  have fact := (anchored_state anchored found).1 _ (mem_closure_of_mem known)
  simp only [itemAnchored, isRule, Option.any_some, Bool.and_eq_true, Bool.or_eq_true,
    beq_iff_eq, bne_iff_ne, List.contains_iff_mem, List.mem_filterMap] at fact
  refine ⟨fact.1, fun dot => ?_⟩
  rcases fact.2 with (begun | isWhole) | ⟨i, member, predicts⟩
  · exact absurd dot begun
  · exact .inl isWhole
  · rw [items_of_state found, outlooks_eq]
    exact .inr ⟨_, List.mem_map_of_mem member, predicts⟩

theorem anchored_edge (checked : t.checked = true) (anchored : t.anchored = true) {x : Symbol}
    {target : Nat} (edge : (t.automaton.row q).edges.lookup x = some target) :
    ∃ o ∈ t.items q, o.1.rest.head? = some x := by
  obtain ⟨state, found⟩ := state_of_edge edge
  rw [lookup_edges found, Option.map_eq_some_iff] at edge
  obtain ⟨e, isEdge, -⟩ := edge
  have member := List.mem_of_find?_eq_some isEdge
  have symbol : x = e.symbol := by simpa using List.find?_some isEdge
  obtain ⟨i, isMoved⟩ := List.exists_mem_of_ne_nil _ ((anchored_state anchored found).2 e member)
  obtain ⟨-, _, -, -, each⟩ := edge_facts checked found member
  obtain ⟨front, s, known, -⟩ := each i isMoved
  rw [items_of_state found, symbol]
  exact ⟨(i, s), known, front⟩

theorem anchored_items (checked : t.checked = true) (anchored : t.anchored = true) :
    Anchored t.automaton t.items where
  head _ _ known _ isOf := (anchored_item anchored known isOf).1
  predicted _ _ known dot := by
    obtain ⟨r, isOf⟩ := item_rule checked known
    refine ((anchored_item anchored known isOf).2 dot).imp_right ?_
    rintro ⟨p, member, predicts⟩
    exact ⟨p, member, prediction?_eq_some_iff.mp predicts⟩
  crossed _ _ _ edge := anchored_edge checked anchored edge

end Anchored

end Tables

namespace Certificate

variable {m : Automaton} {vanishing : SymbolSet} {first : SetTable} {items : Nat → List Outlook}

/-- A derivation that an item of the state behind `below` wants to read next. -/
structure Wanted (m : Automaton) (items : Nat → List Outlook) (below : Stack) (o : Outlook)
    (d : Derivation) : Prop where
  linked : below.Linked m
  valid : ∀ entry ∈ below, entry.2.Valid m.rules.toList
  known : o ∈ items below.state
  front : o.1.rest.head? = some d.symbol
  derives : d.Valid m.rules.toList
  notEnd : d.symbol ≠ .terminal .endOfText

/-- Falls from an item to the one that has predicted it. -/
def distance (below : Stack) (o : Outlook) : Nat :=
  below.length * 32 + if o.1.dot = 0 then o.1.head.ctorIdx + 1 else 0

theorem distance_lt {below base : Stack} {o p : Outlook} (fewer : base.length ≤ below.length)
    (fewer_if : o.1.dot ≠ 0 → base.length < below.length)
    (earlier : p.1.dot = 0 → p.1.head.ctorIdx < o.1.head.ctorIdx) :
    distance base p < distance below o := by
  have few : p.1.head.ctorIdx < 31 := by cases p.1.head <;> decide
  unfold distance
  split <;> split <;> omega

/-- The item of the whole text wants the text, and then nothing but its end. -/
theorem dot_eq_zero_of_whole {i : Item} {r : Rule} (isOf : i.Of m r) (body : r.body = whole)
    {x : Symbol} {rest : List Symbol} (front : i.rest = x :: rest)
    (notEnd : x ≠ .terminal .endOfText) : i.dot = 0 ∧ x = .nonterminal .start := by
  have here := isOf.2.1
  rw [front, body] at here
  match dot : i.dot with
  | 0 =>
    rw [dot] at here
    exact ⟨rfl, (List.cons.inj here).1⟩
  | 1 =>
    rw [dot] at here
    exact absurd (List.cons.inj here).1 notEnd
  | n + 2 => simp [dot, whole] at here

/-- What has been read for an item and what it still wants are a derivation of its head. -/
theorem valid_branch_of_item {i : Item} {r : Rule} (isOf : i.Of m r) {entries : Stack}
    {ds : List Derivation} (read : entries.reverse.map (·.2.symbol) = r.body.take i.dot)
    (wanted : ds.map Derivation.symbol = i.rest)
    (validEntries : ∀ entry ∈ entries, entry.2.Valid m.rules.toList)
    (validRest : ∀ d ∈ ds, d.Valid m.rules.toList) :
    (Derivation.branch r (entries.reverse.map (·.2) ++ ds)).Valid m.rules.toList := by
  refine .branch (Array.mem_toList_iff.mpr (Array.mem_of_getElem? isOf.1)) ?_ ?_
  · rw [List.map_append, List.map_map, wanted, isOf.2.1]
    exact (congrArg (· ++ _) read).trans (List.take_append_drop _ _)
  · refine List.forall_mem_append.mpr ⟨fun d member => ?_, validRest⟩
    obtain ⟨entry, found, rfl⟩ := List.mem_map.mp member
    exact validEntries entry (List.mem_reverse.mp found)

/-- What an item wants is all of the text, or goes on to what an item further out wants. -/
theorem Wanted.outwards (certificate : Certificate m vanishing first items)
    (anchored : Anchored m items) (productive : ∀ x, Productive m.rules.toList x) {below : Stack}
    {o : Outlook} {d : Derivation} (wanted : Wanted m items below o d) :
    (below = [] ∧ d.symbol = .nonterminal .start) ∨
      ∃ base p e more, Wanted m items base p e ∧ distance base p < distance below o ∧
        base.lexemes ++ e.lexemes = below.lexemes ++ d.lexemes ++ more := by
  obtain ⟨linked, valid, known, front, derives, notEnd⟩ := wanted
  obtain ⟨rest, front⟩ := List.head?_eq_some_iff.mp front
  obtain ⟨r, isOf⟩ := certificate.item_rule _ o known
  obtain ⟨entries, base, rfl, linkedBase, symbols, p, known', isOf', dot'⟩ :=
    certificate.read_of_item linked known isOf
  have length : entries.length = o.1.dot := by
    have lengths := congrArg List.length symbols
    rw [List.length_map, List.length_reverse, List.length_take] at lengths
    have within := isOf.2.2
    omega
  rcases anchored.predicted _ p known' dot' with isWhole | ⟨p', known'', front', earlier⟩
  · left
    have body : r.body = whole := by rw [← isWhole, isOf'.2.1, dot', List.drop_zero]
    obtain rfl := certificate.state_eq_zero linkedBase
      (certificate.bottom _ p known' r isOf' dot' (.inl body))
    obtain ⟨dot, isStart⟩ := dot_eq_zero_of_whole isOf body front notEnd
    rw [dot] at length
    obtain rfl := List.length_eq_zero_iff.mp length
    exact ⟨rfl, isStart⟩
  · right
    obtain ⟨ds, validRest, symbolsRest⟩ :=
      Productive.exists_all fun y (_ : y ∈ rest) => productive y
    obtain ⟨validEntries, validBase⟩ := List.forall_mem_append.mp valid
    have complete := @valid_branch_of_item m o.1 r isOf entries (d :: ds) symbols
      (by rw [List.map_cons, symbolsRest, front]) validEntries
      (List.forall_mem_cons.mpr ⟨derives, validRest⟩)
    rw [← anchored.head _ p known' r isOf'] at front' earlier
    rw [anchored.head _ o known r isOf] at earlier
    refine ⟨base, p', .branch r (entries.reverse.map (·.2) ++ d :: ds), Derivation.allLexemes ds,
      ⟨linkedBase, validBase, known'', front', complete, by simp⟩, distance_lt ?_ ?_ earlier, ?_⟩
    · simp
    · rw [List.length_append]
      omega
    · simp [Stack.lexemes, Derivation.lexemes, Derivation.allLexemes]

/-- What an item wants goes on to a whole text. -/
theorem Wanted.exists_whole (certificate : Certificate m vanishing first items)
    (anchored : Anchored m items) (productive : ∀ x, Productive m.rules.toList x) {below : Stack}
    {o : Outlook} {d : Derivation} (wanted : Wanted m items below o d) :
    ∃ (e : Derivation) (more : List Lexeme), e.Valid m.rules.toList ∧
      e.symbol = .nonterminal .start ∧ e.lexemes = below.lexemes ++ d.lexemes ++ more := by
  induction far : distance below o using Nat.strong_induction_on generalizing below o d with
  | _ n ih =>
    subst far
    rcases wanted.outwards certificate anchored productive with
      ⟨rfl, isStart⟩ | ⟨base, p, e, more, wanted', nearer, lexemes⟩
    · exact ⟨d, [], wanted.derives, isStart, by simp [Stack.lexemes, Derivation.allLexemes]⟩
    · obtain ⟨whole, more', valid, isStart, lexemes'⟩ := ih _ nearer wanted' rfl
      refine ⟨whole, more ++ more', valid, isStart, ?_⟩
      rw [lexemes', lexemes, List.append_assoc]

end Certificate

theorem tables_anchored : (Tables.ofRules rules).anchored = true := by decide +kernel

theorem automaton_anchored : ∃ vanishing first items, Certificate automaton vanishing first items ∧
    Anchored automaton items := by
  have certificate := Tables.certificate tables_checked
  have anchored := Tables.anchored_items tables_checked tables_anchored
  rw [Tables.automaton_ofRules] at certificate anchored
  exact ⟨_, _, _, certificate, anchored⟩

theorem derivable_nil : Derivable [] :=
  ⟨.branch ⟨.start, [], .gather⟩ [], .branch (by decide) rfl (by simp), rfl, rfl⟩

/-- What the automaton reads is the beginning of a text. -/
theorem viable_of_run {lines : LineIndex} {ls : List Lexeme} {stack : Stack}
    (ran : ls.foldlM (step automaton lines) [] = .ok stack)
    (noEnd : ∀ l ∈ ls, l.terminal ≠ .endOfText) : Viable (ls.map Lexeme.terminal) := by
  obtain ⟨vanishing, first, items, certificate, anchored⟩ := automaton_anchored
  rcases List.eq_nil_or_concat ls with rfl | ⟨ks, l, rfl⟩
  · exact ⟨[], derivable_nil⟩
  rw [List.concat_eq_append] at ran noEnd ⊢
  obtain ⟨earlier, before, last⟩ := exists_of_foldlM_append_eq_ok ran
  have holds := certificate.holds_run (.nil automaton) before
  rw [List.foldlM_cons, step] at last
  split at last
  · rename_i settled target settles
    -- The last lexeme is shifted because an item wants it.
    obtain ⟨⟨linked, valid, lexemes⟩, edge⟩ := certificate.holds_settle holds settles
    obtain ⟨o, known, front⟩ := anchored.crossed _ _ _ edge
    have notEnd : Symbol.terminal l.terminal ≠ .terminal .endOfText := by
      simpa using noEnd l (by simp)
    have wanted : Certificate.Wanted automaton items settled o (.leaf l) :=
      ⟨linked, valid, known, front, .leaf l, notEnd⟩
    have produces : ∀ x, Productive automaton.rules.toList x := by
      rw [automaton_rules]
      exact productive
    obtain ⟨e, more, validE, isStart, whole⟩ := wanted.exists_whole certificate anchored produces
    rw [automaton_rules] at validE
    refine ⟨more.map Lexeme.terminal, e, validE, isStart, ?_⟩
    rw [whole, lexemes]
    simp [Derivation.lexemes]
  · cases last

/-- Characters of the terminal. -/
def Terminal.spelling : Terminal → List Char
  | .letWord => ['l', 'e', 't']
  | .andWord => ['a', 'n', 'd']
  | .orWord => ['o', 'r']
  | .identifier => ['x']
  | .number => ['0']
  | .string => ['"', '"']
  | w => (Pattern.all.findSome? fun
      | .literal own text => if own = w then some text else none
      | _ => none).getD []

def Lexeme.ofTerminal (w : Terminal) : Lexeme := ⟨w, w.spelling, 0, 0⟩

theorem Lexeme.terminal_ofTerminal (lines : LineIndex) (w : Terminal) :
    ((ofTerminal w).toToken lines).terminal = w := by
  cases w <;> rfl

theorem Lexeme.map_terminal_append (ls : List Lexeme) (ws : List Terminal) :
    (ls ++ ws.map ofTerminal).map terminal = ls.map terminal ++ ws := by
  rw [List.map_append, List.map_map]
  exact congrArg (_ ++ ·) (List.map_id ws)

/-- The automaton reads the beginning of every text that the rules derive. -/
theorem run_of_viable {ls : List Lexeme} (viable : Viable (ls.map Lexeme.terminal))
    (lines : LineIndex) : ∃ stack, ls.foldlM (step automaton lines) [] = .ok stack := by
  obtain ⟨vanishing, first, items, certificate⟩ := automaton_certificate
  obtain ⟨more, d, valid, isStart, terminals⟩ := viable
  rw [← Lexeme.map_terminal_append] at terminals
  obtain ⟨e, valid, symbol, lexemes⟩ := valid.exists_relabelled terminals.symm
  rw [← automaton_rules] at valid
  obtain ⟨last, _, _, ran, -⟩ := (certificate.accepts valid (symbol.trans isStart)).run lines
  rw [lexemes] at ran
  obtain ⟨stack, before, -⟩ := exists_of_foldlM_append_eq_ok ran
  exact ⟨stack, before⟩

end Grammar

end SceneScript
