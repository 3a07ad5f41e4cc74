import SceneScript.Grammar.Engine
import SceneScript.Proofs.Grammar.Derivations

/-!
What makes an automaton right: its states know items with the terminals that can follow them, and
every row does what its items ask for and nothing else.
-/

namespace SceneScript.Grammar

def Item.Of (m : Automaton) (i : Item) (r : Rule) : Prop :=
  m.rules[i.rule]? = some r ∧ i.rest = r.body.drop i.dot ∧ i.dot ≤ r.body.length

namespace Item.Of

variable {m : Automaton} {i : Item} {r : Rule}

theorem next (isOf : i.Of m r) {x : Symbol} {rest : List Symbol} (front : i.rest = x :: rest) :
    i.next.Of m r := by
  obtain ⟨found, remains, _⟩ := isOf
  have some_left : 0 < (r.body.drop i.dot).length := by
    rw [← remains, front]
    exact Nat.succ_pos _
  rw [List.length_drop] at some_left
  refine ⟨found, ?_, ?_⟩
  · simp only [Item.next, remains, List.tail_drop]
  · simp only [Item.next]
    omega

theorem dot_eq_length (isOf : i.Of m r) (finished : i.rest = []) : i.dot = r.body.length := by
  obtain ⟨_, remains, within⟩ := isOf
  have none_left := List.drop_eq_nil_iff.mp (remains ▸ finished)
  omega

end Item.Of

/-- How often a symbol can have been the only part of a reduction. -/
def Symbol.height : Symbol → Nat
  | .terminal _ => 0
  | .nonterminal n =>
    match n with
    | .start => 15
    | .expr => 11
    | .logic => 10
    | .comparison => 9
    | .relation => 8
    | .sum => 7
    | .product => 6
    | .factor => 5
    | .power => 4
    | .call => 3
    | .atom => 2
    | .statements | .assign | .negation | .sign | .invocation | .group | .list => 1
    | .root | .logicTail | .relationTail | .sumTail | .productTail | .items => 0

theorem Symbol.height_le (x : Symbol) : x.height ≤ 15 := by
  cases x with
  | terminal => exact Nat.zero_le 15
  | nonterminal n => cases n <;> decide

/-- The whole text, as the root's rule has it. -/
def whole : List Symbol := [.nonterminal .start, .terminal .endOfText]

structure Certificate (m : Automaton) (vanishing : SymbolSet) (first : SetTable)
    (items : Nat → List Outlook) : Prop where
  beginnings : Beginnings m.rules.toList vanishing first
  /-- A symbol that is a rule's only part is lower than the rule's head. -/
  higher : ∀ r ∈ m.rules.toList, ∀ x, r.body = [x] → x.height < (Symbol.nonterminal r.head).height
  empty_high : ∀ r ∈ m.rules.toList, r.body = [] → 8 < (Symbol.nonterminal r.head).height
  item_rule : ∀ q, ∀ o ∈ items q, ∃ r, o.1.Of m r
  start : ∃ o ∈ items 0, o.1.rest = whole
  initial : ∀ o ∈ items 0, o.1.dot = 0
  /-- Where a nonterminal can be read, its rules can. -/
  close : ∀ q, ∀ o ∈ items q, ∀ n rest, o.1.rest = .nonterminal n :: rest →
    ∀ r ∈ m.rules.toList, r.head = n → ∃ p ∈ items q, p.1.dot = 0 ∧ p.1.Of m r ∧
      included (firstOf vanishing first o.2 rest) p.2 = true
  /-- Where a symbol can be read, an edge leads to where it has been read. -/
  cross : ∀ q, ∀ o ∈ items q, ∀ x rest, o.1.rest = x :: rest → ∃ q',
    (m.row q).edges.lookup x = some q' ∧ ∃ p ∈ items q', p.1 = o.1.next ∧
      included o.2 p.2 = true
  /-- What has been read to its end is reduced in front of what can follow it. -/
  reduce : ∀ q, ∀ o ∈ items q, ∀ r, o.1.Of m r → o.1.rest = [] →
    ∀ t : Terminal, t.mem o.2 = true → m.action? q t = some (.reduce r)
  /-- Only what has been read to its end is reduced. -/
  reduced : ∀ q t r, m.action? q t = some (.reduce r) → ∃ o ∈ items q, o.1.Of m r ∧ o.1.rest = []
  edge_target : ∀ q x q', (m.row q).edges.lookup x = some q' → q' ≠ 0
  /-- What has been read behind an edge could be read before it. -/
  back : ∀ q x q', (m.row q).edges.lookup x = some q' → ∀ p ∈ items q', p.1.dot = 0 ∨
    ∃ o ∈ items q, o.1.rest.head? = some x ∧ p.1 = o.1.next
  ending : ∀ q q', (m.row q).edges.lookup (.terminal .endOfText) = some q' →
    ∃ o ∈ items q, o.1.dot = 1 ∧ ∃ r, o.1.Of m r ∧ r.body = whole
  /-- The whole text and empty parts are looked for at the start only. -/
  bottom : ∀ q, ∀ o ∈ items q, ∀ r, o.1.Of m r → o.1.dot = 0 → r.body = whole ∨ r.body = [] →
    q = 0

end SceneScript.Grammar
