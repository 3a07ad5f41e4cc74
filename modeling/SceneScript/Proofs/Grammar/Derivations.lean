import Mathlib.Data.Nat.Bitwise
import SceneScript.Grammar.Automaton
import SceneScript.Grammar.Derivation

/-!
Derivations by rules, and the terminals they begin with.
-/

namespace SceneScript.Grammar

def included (s t : SymbolSet) : Bool := (s ||| t) == t

namespace Terminal

variable {t : Terminal} {a b : SymbolSet}

theorem mem_of_included (within : included a b = true) (member : t.mem a = true) :
    t.mem b = true := by
  have same : a ||| b = b := by simpa [included] using within
  unfold mem at member ⊢
  rw [← same, Nat.testBit_or, member, Bool.true_or]

theorem mem_or : t.mem (a ||| b) = (t.mem a || t.mem b) := Nat.testBit_or ..

theorem mem_bit : t.mem t.bit = true := by
  unfold mem bit
  rw [Nat.one_shiftLeft]
  exact Nat.testBit_two_pow_self

end Terminal

namespace Derivation

inductive Valid (rules : List Rule) : Derivation → Prop
  | leaf (l : Lexeme) : Valid rules (.leaf l)
  | branch {rule : Rule} {parts : List Derivation} (member : rule ∈ rules)
      (fits : parts.map symbol = rule.body) (valid : ∀ d ∈ parts, Valid rules d) :
      Valid rules (.branch rule parts)

@[simp]
theorem symbol_branch (r : Rule) (parts : List Derivation) :
    (branch r parts).symbol = .nonterminal r.head := rfl

@[simp]
theorem allLexemes_append (ds es : List Derivation) :
    allLexemes (ds ++ es) = allLexemes ds ++ allLexemes es := by
  induction ds with
  | nil => rfl
  | cons d ds ih => simp only [List.cons_append, allLexemes, ih, List.append_assoc]

end Derivation

def ahead : List Lexeme → Terminal
  | [] => .endOfText
  | l :: _ => l.terminal

/-- What is known of the beginnings of derivations agrees with the rules. -/
structure Beginnings (rules : List Rule) (vanishing : SymbolSet) (first : SetTable) : Prop where
  vanishing_head : ∀ r ∈ rules, vanish vanishing r.body = true → r.head.mem vanishing = true
  first_head : ∀ r ∈ rules,
    included (firstOf vanishing first 0 r.body) (first.get r.head.ctorIdx) = true

namespace Beginnings

variable {rules : List Rule} {vanishing : SymbolSet} {first : SetTable}

theorem mem_firstOf_of_zero {t : Terminal} {s : SymbolSet} {symbols : List Symbol}
    (member : t.mem (firstOf vanishing first 0 symbols) = true) :
    t.mem (firstOf vanishing first s symbols) = true := by
  induction symbols with
  | nil => simp [firstOf, Terminal.mem] at member
  | cons symbol symbols ih =>
    cases symbol with
    | terminal u => exact member
    | nonterminal n =>
      simp only [firstOf] at member ⊢
      split at member
      · rename_i vanishes
        rw [if_pos vanishes, Terminal.mem_or, Bool.or_eq_true] at *
        exact member.imp id ih
      · rename_i solid
        rwa [if_neg solid]

theorem mem_firstOf_of_vanish {t : Terminal} {s : SymbolSet} {symbols : List Symbol}
    (vanishes : vanish vanishing symbols = true) (member : t.mem s = true) :
    t.mem (firstOf vanishing first s symbols) = true := by
  induction symbols with
  | nil => exact member
  | cons symbol symbols ih =>
    cases symbol with
    | terminal u => cases vanishes
    | nonterminal n =>
      simp only [vanish, Bool.and_eq_true] at vanishes
      simp only [firstOf, vanishes.1, if_true, Terminal.mem_or, ih vanishes.2, Bool.or_true]

/-- Where symbols derive no lexeme they vanish; else they can begin with the first one. -/
def Begins (vanishing : SymbolSet) (first : SetTable) (symbols : List Symbol)
    (ls : List Lexeme) : Prop :=
  match ls with
  | [] => vanish vanishing symbols = true
  | l :: _ => l.terminal.mem (firstOf vanishing first 0 symbols) = true

theorem mem_first_of_begins {n : Nonterminal} {l : Lexeme} {ls : List Lexeme}
    (begins : Begins vanishing first [.nonterminal n] (l :: ls)) :
    l.terminal.mem (first.get n.ctorIdx) = true := by
  have member : l.terminal.mem (firstOf vanishing first 0 [.nonterminal n]) = true := begins
  unfold firstOf at member
  split at member
  · simpa [firstOf, Terminal.mem] using member
  · exact member

theorem mem_firstOf_cons {t : Terminal} {s : SymbolSet} {n : Nonterminal} {symbols : List Symbol}
    (member : t.mem (first.get n.ctorIdx) = true) :
    t.mem (firstOf vanishing first s (.nonterminal n :: symbols)) = true := by
  unfold firstOf
  split
  · rw [Terminal.mem_or, member, Bool.true_or]
  · exact member

theorem begins_append {symbol : Symbol} {symbols : List Symbol} {ks ls : List Lexeme}
    (here : Begins vanishing first [symbol] ks) (there : Begins vanishing first symbols ls) :
    Begins vanishing first (symbol :: symbols) (ks ++ ls) := by
  cases symbol with
  | terminal t =>
    cases ks with
    | nil => cases here
    | cons k ks => exact here
  | nonterminal n =>
    cases ks with
    | nil =>
      have vanishes : n.mem vanishing = true := by simpa [Begins, vanish] using here
      cases ls with
      | nil => simpa [Begins, vanish, vanishes] using there
      | cons l ls =>
        have member : l.terminal.mem (firstOf vanishing first 0 symbols) = true := there
        simp only [List.nil_append, Begins, firstOf, vanishes, if_true, Terminal.mem_or, member,
          Bool.or_true]
    | cons k ks => exact mem_firstOf_cons (mem_first_of_begins here)

theorem begins_all {ds : List Derivation}
    (each : ∀ d ∈ ds, Begins vanishing first [d.symbol] d.lexemes) :
    Begins vanishing first (ds.map Derivation.symbol) (Derivation.allLexemes ds) := by
  induction ds with
  | nil => rfl
  | cons d ds ih =>
    obtain ⟨here, there⟩ := List.forall_mem_cons.mp each
    exact begins_append here (ih there)

theorem begins_of_valid (beginnings : Beginnings rules vanishing first) {d : Derivation}
    (valid : d.Valid rules) : Begins vanishing first [d.symbol] d.lexemes := by
  induction valid with
  | leaf l => exact Terminal.mem_bit
  | @branch rule parts member fits _ ih =>
    have begins := begins_all ih
    rw [fits] at begins
    unfold Derivation.lexemes
    cases ls : Derivation.allLexemes parts with
    | nil =>
      rw [ls] at begins
      have vanishes := beginnings.vanishing_head rule member begins
      simp [Begins, Derivation.symbol, vanish, vanishes]
    | cons l ls' =>
      rw [ls] at begins
      have inHead := Terminal.mem_of_included (beginnings.first_head rule member) begins
      exact mem_firstOf_cons inHead

/-- In front of derivations stands a terminal that they can begin with, or that can follow them
    where they are empty. -/
theorem ahead_mem (beginnings : Beginnings rules vanishing first) {ds : List Derivation}
    (valid : ∀ d ∈ ds, d.Valid rules) {ls : List Lexeme} {s : SymbolSet}
    (follows : (ahead ls).mem s = true) :
    (ahead (Derivation.allLexemes ds ++ ls)).mem
      (firstOf vanishing first s (ds.map Derivation.symbol)) = true := by
  have begins := begins_all fun d member => beginnings.begins_of_valid (valid d member)
  cases ks : Derivation.allLexemes ds with
  | nil =>
    rw [ks] at begins
    exact mem_firstOf_of_vanish begins follows
  | cons k ks' =>
    rw [ks] at begins
    exact mem_firstOf_of_zero begins

end Beginnings

end SceneScript.Grammar
