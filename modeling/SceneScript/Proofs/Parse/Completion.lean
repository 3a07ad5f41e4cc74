import SceneScript.Proofs.Parse.Soundness
import SceneScript.Proofs.Parse.Terminal

/-!
The parser by precedence stops as early as it can: whatever it has read without a fault goes on to
statements. An operand is put where one is missing, what waits for it is completed from the inside
outwards, with closing brackets where they are due, and a semicolon ends the statement.
-/

namespace SceneScript

open Grammar (Terminal)

/-- The terminals that complete what has been begun. -/
def closing : List Terminal :=
  [.number, .identifier, .equal, .rightParen, .rightSquare, .semicolon]

/-- With some of the closing tokens behind them, the tokens are statements. -/
def Completable (token : Terminal → Token) (ts : List Token) : Prop :=
  ∃ (ws : List Terminal) (body : List Node), ws ⊆ closing ∧
    Statements (Reads 0) (ts ++ ws.map token) body

section Completion

variable {token : Terminal → Token} {ts us vs : List Token}

theorem Completable.of_append (ws : List Terminal) (known : ws ⊆ closing)
    (completable : Completable token (ts ++ ws.map token)) : Completable token ts := by
  obtain ⟨more, body, known', statements⟩ := completable
  refine ⟨ws ++ more, body, List.append_subset.mpr ⟨known, known'⟩, ?_⟩
  rw [List.map_append, ← List.append_assoc]
  exact statements

variable (spelled : ∀ w, (token w).terminal = w)
include spelled

theorem kind_of_spelled {w : Terminal} (notEnd : w ≠ .endOfText) : (token w).kind = w.kind := by
  have kind := (token w).kind_terminal (by rw [spelled]; exact notEnd)
  rw [← kind, spelled]

/-- A frame with its operand becomes a part, where it is a bracket with a closing one behind. -/
theorem Frame.Holds.close {f : Frame} {x : Node} (holds : f.Holds us)
    (operand : Reads f.demand vs x) : ∃ (ws : List Terminal) (n : Node), ws ⊆ closing ∧
      Reads f.rank (us ++ vs ++ ws.map token) n := by
  have open_end {n : Node} (complete : f.complete? x = some n) :
      ∃ (ws : List Terminal) (n : Node), ws ⊆ closing ∧ Reads f.rank (us ++ vs ++ ws.map token) n :=
    ⟨[], n, List.nil_subset _, by simpa using holds.complete operand complete⟩
  have paren : (token .rightParen).kind = .rightParen := kind_of_spelled spelled (by decide)
  have square : (token .rightSquare).kind = .rightSquare := kind_of_spelled spelled (by decide)
  cases f with
  | assign | binary | negate | sign => exact open_end rfl
  | group =>
    obtain ⟨l, rfl, opener⟩ := holds
    exact ⟨[.rightParen], _, by decide, .group opener operand paren⟩
  | call callee args =>
    obtain ⟨as, l, bs, rfl, atom, opener, leading⟩ := holds
    have call := Reads.call atom opener (.snoc leading operand) paren
    exact ⟨[.rightParen], _, by decide, by simpa [Frame.rank] using call⟩
  | list opener elements =>
    obtain ⟨bs, rfl, isOpener, leading⟩ := holds
    have list := Reads.list isOpener (.snoc leading operand) square
    exact ⟨[.rightSquare], _, by decide, by simpa [Frame.rank] using list⟩

theorem Stacked.close {frames : List Frame} {x : Node} {k : Nat} (stacked : Stacked frames us)
    (operand : Reads k vs x) (fits : ∀ g ∈ frames.head?, g.demand ≤ k) :
    ∃ (ws : List Terminal) (n : Node), ws ⊆ closing ∧ Reads 0 (us ++ vs ++ ws.map token) n := by
  induction stacked generalizing x k vs with
  | nil => exact ⟨[], x, List.nil_subset _, by simpa using operand.weaken (Nat.zero_le k)⟩
  | @cons f frames us ts below tight holds ih =>
    obtain ⟨ws, n, known, part⟩ := holds.close spelled (operand.weaken (fits f (by simp)))
    obtain ⟨ws', n', known', whole⟩ := ih part tight
    refine ⟨ws ++ ws', n', List.append_subset.mpr ⟨known, known'⟩, ?_⟩
    simpa using whole

/-- An operand that binds tightly completes all that waits for it. -/
theorem Stacked.completable {frames : List Frame} {x : Node} {k : Nat} {done : List Node}
    (before : Statements (Reads 0) ts done) (stacked : Stacked frames us) (operand : Reads k vs x)
    (tight : 6 ≤ k) : Completable token (ts ++ (us ++ vs)) := by
  have fits : ∀ g ∈ frames.head?, g.demand ≤ k := fun g _ => Nat.le_trans g.demand_le_six tight
  obtain ⟨ws, n, known, statement⟩ := stacked.close spelled operand fits
  have semicolon : (token .semicolon).kind = .semicolon := kind_of_spelled spelled (by decide)
  refine ⟨ws ++ [.semicolon], done ++ [n], ?_, ?_⟩
  · exact List.append_subset.mpr ⟨known, by decide⟩
  · simpa using before.snoc statement semicolon

theorem Stacked.completable_operand {frames : List Frame} {done : List Node}
    (before : Statements (Reads 0) ts done) (stacked : Stacked frames us) :
    Completable token (ts ++ us) := by
  have number : (token .number).kind = .number := kind_of_spelled spelled (by decide)
  refine .of_append [.number] (by decide) ?_
  rw [List.append_assoc]
  exact stacked.completable spelled before (.number number) (by decide)

/-- What the parser has read can be completed. -/
theorem Parser.Invariant.completable {p : Parser} (invariant : p.Invariant ts) :
    Completable token ts := by
  obtain ⟨us, vs, rfl, done, focused⟩ := invariant
  have name : (token .identifier).kind = .identifier := kind_of_spelled spelled (by decide)
  have equals : (token .equal).kind = .equal := kind_of_spelled spelled (by decide)
  cases focus : p.focus with
  | statement =>
    rw [focus] at focused
    obtain ⟨-, rfl⟩ := focused
    exact ⟨[], _, List.nil_subset _, by simpa using done⟩
  | operand =>
    rw [focus] at focused
    exact Stacked.completable_operand spelled done focused
  | item =>
    rw [focus] at focused
    exact Stacked.completable_operand spelled done focused.1
  | name =>
    rw [focus] at focused
    obtain ⟨as, word, rfl, stacked, isLet, top⟩ := focused
    have assign := Stacked.cons stacked (fun g head => Nat.le_of_eq (top g head))
      (f := .assign (token .identifier)) ⟨word, token .equal, rfl, isLet, name, equals⟩
    refine .of_append [.identifier, .equal] (by decide) ?_
    simpa using Stacked.completable_operand spelled done assign
  | equals own =>
    rw [focus] at focused
    obtain ⟨as, word, rfl, stacked, isLet, top, isName⟩ := focused
    have assign := Stacked.cons stacked (fun g head => Nat.le_of_eq (top g head))
      (f := .assign own) ⟨word, token .equal, rfl, isLet, isName, equals⟩
    refine .of_append [.equal] (by decide) ?_
    simpa using Stacked.completable_operand spelled done assign
  | operator x callable =>
    rw [focus] at focused
    obtain ⟨as, bs, rfl, stacked, reads⟩ := focused
    exact stacked.completable spelled done reads (by split <;> decide)

end Completion

end SceneScript
