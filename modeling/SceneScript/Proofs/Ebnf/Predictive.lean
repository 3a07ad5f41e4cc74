import Mathlib.Data.List.Pairwise
import SceneScript.Proofs.Ebnf.Tree

/-!
A grammar is predictive when the next token always tells how a phrase goes on: which part starts
with it, or that the phrase is over. Predictive grammars are unambiguous.
-/

namespace SceneScript.Ebnf

open Grammar (Terminal)

def sameExpression : RegularExpression Symbol → RegularExpression Symbol → Bool
  | .zero, .zero | .epsilon, .epsilon => true
  | .char a, .char b => a == b
  | .plus p q, .plus r s | .comp p q, .comp r s => sameExpression p r && sameExpression q s
  | .star p, .star q => sameExpression p q
  | _, _ => false

theorem sameExpression_self (p : RegularExpression Symbol) : sameExpression p p = true := by
  induction p <;> simp [sameExpression, *]

theorem eq_of_sameExpression {p q : RegularExpression Symbol} (same : sameExpression p q = true) :
    p = q := by
  induction p generalizing q <;> cases q <;> simp only [sameExpression, Bool.and_eq_true,
    beq_iff_eq, Bool.false_eq_true] at same
  case zero.zero | epsilon.epsilon => rfl
  case char.char => rw [same]
  case plus.plus ihp ihq _ _ => rw [ihp same.1, ihq same.2]
  case comp.comp ihp ihq _ _ => rw [ihp same.1, ihq same.2]
  case star.star ih _ => rw [ih same]

instance expressionDecidableEq : DecidableEq (RegularExpression Symbol) :=
  fun p _ => decidable_of_iff _ ⟨eq_of_sameExpression, fun same => same ▸ sameExpression_self p⟩

/-- The symbols a word of the expression may start with, each with what may follow it. -/
def moves : RegularExpression Symbol → List (Symbol × RegularExpression Symbol)
  | .zero => []
  | .epsilon => []
  | .char a => [(a, 1)]
  | .plus p q => moves p ++ moves q
  | .comp p q =>
    (moves p).map (fun m => (m.1, m.2 * q)) ++ if p.matchEpsilon then moves q else []
  | .star p => (moves p).map fun m => (m.1, m.2 * p.star)

theorem exists_move {a : Symbol} {w : List Symbol} {p : RegularExpression Symbol}
    (fits : a :: w ∈ p.matches') : ∃ rest, (a, rest) ∈ moves p ∧ w ∈ rest.matches' := by
  rw [← RegularExpression.rmatch_iff_matches', RegularExpression.rmatch,
    RegularExpression.rmatch_iff_matches'] at fits
  induction p generalizing w with
  | zero => exact absurd fits (Language.notMem_zero w)
  | epsilon => exact absurd fits (Language.notMem_zero w)
  | char b =>
    simp only [RegularExpression.deriv] at fits
    split at fits
    · rename_i same
      exact ⟨1, by simp [moves, same], fits⟩
    · exact absurd fits (Language.notMem_zero w)
  | plus p q ihp ihq =>
    rcases fits with fits | fits
    · obtain ⟨rest, member, fits⟩ := ihp fits
      exact ⟨rest, List.mem_append_left _ member, fits⟩
    · obtain ⟨rest, member, fits⟩ := ihq fits
      exact ⟨rest, List.mem_append_right _ member, fits⟩
  | comp p q ihp ihq =>
    have inFirst (split : w ∈ (p.deriv a * q).matches') :
        ∃ rest, (a, rest) ∈ moves (.comp p q) ∧ w ∈ rest.matches' := by
      obtain ⟨u, front, v, back, rfl⟩ := split
      obtain ⟨rest, member, front⟩ := ihp front
      refine ⟨rest * q, List.mem_append_left _ ?_, u, front, v, back, rfl⟩
      exact List.mem_map_of_mem (f := fun m => (m.1, m.2 * q)) member
    simp only [RegularExpression.deriv] at fits
    split at fits
    · rename_i vanishes
      rcases fits with fits | fits
      · exact inFirst fits
      · obtain ⟨rest, member, fits⟩ := ihq fits
        refine ⟨rest, List.mem_append_right _ ?_, fits⟩
        rwa [if_pos vanishes]
    · exact inFirst fits
  | star p ih =>
    obtain ⟨u, front, v, back, rfl⟩ := fits
    obtain ⟨rest, member, front⟩ := ih front
    refine ⟨rest * p.star, ?_, u, front, v, back, rfl⟩
    exact List.mem_map_of_mem (f := fun m => (m.1, m.2 * p.star)) member

theorem matchEpsilon_of_nil_mem {p : RegularExpression Symbol} (fits : [] ∈ p.matches') :
    p.matchEpsilon = true := by
  rwa [← RegularExpression.rmatch_iff_matches'] at fits

def reach : Nat → List (RegularExpression Symbol) → List (RegularExpression Symbol)
  | 0, states => states
  | rounds + 1, states => reach rounds (states ∪ (states.flatMap moves).map Prod.snd)

/-- The terminals that phrases may start with, those that may follow them, and the expressions
    met inside them. -/
structure Outlook where
  first : Category → List Terminal
  follow : Category → List Terminal
  states : Category → List (RegularExpression Symbol)

namespace Outlook

variable (outlook : Outlook)

def opening : Symbol → List Terminal
  | .word t => [t]
  | .phrase c => outlook.first c

def ahead (c : Category) (p : RegularExpression Symbol) : List Terminal :=
  (moves p).flatMap (outlook.opening ·.1) ++ if p.matchEpsilon then outlook.follow c else []

/-- The state after a symbol leads to nothing that may not follow the symbol, and the symbol is
    never empty. -/
def admits (g : Productions) (c : Category) : Symbol × RegularExpression Symbol → Bool
  | (.word _, _) => true
  | (.phrase d, rest) =>
    !(g d).matchEpsilon && (outlook.ahead c rest).all (· ∈ outlook.follow d)

/-- The next token tells the next symbol or that there is none. -/
def decides (g : Productions) (c : Category) (p : RegularExpression Symbol) : Bool :=
  (outlook.ahead c p).Nodup && (moves p).all fun m =>
    decide (m.2 ∈ outlook.states c) && outlook.admits g c m

/-- The first tokens of all phrases and the states inside them are known, and decide. -/
def predicts (g : Productions) : Bool :=
  Category.all.all fun c =>
    decide (g c ∈ outlook.states c) && (outlook.states c).all (outlook.decides g c) &&
      (moves (g c)).all fun m => (outlook.opening m.1).all (· ∈ outlook.first c)

section Unique

variable {outlook} {g : Productions} {c : Category} {p : RegularExpression Symbol}
  {m : Symbol × RegularExpression Symbol}

theorem initial_mem (predicts : outlook.predicts g = true) (c : Category) :
    g c ∈ outlook.states c := by
  have found := List.all_eq_true.mp predicts c (Category.mem_all c)
  simp only [Bool.and_eq_true, decide_eq_true_eq] at found
  exact found.1.1

theorem first_of_move (predicts : outlook.predicts g = true) (move : m ∈ moves (g c))
    {t : Terminal} (opens : t ∈ outlook.opening m.1) : t ∈ outlook.first c := by
  have found := List.all_eq_true.mp predicts c (Category.mem_all c)
  simp only [Bool.and_eq_true, List.all_eq_true, decide_eq_true_eq] at found
  exact found.2 m move t opens

theorem decides_of_mem (predicts : outlook.predicts g = true) (state : p ∈ outlook.states c) :
    outlook.decides g c p = true := by
  have found := List.all_eq_true.mp predicts c (Category.mem_all c)
  simp only [Bool.and_eq_true, List.all_eq_true] at found
  exact found.1.2 p state

theorem nodup_ahead (predicts : outlook.predicts g = true) (state : p ∈ outlook.states c) :
    (outlook.ahead c p).Nodup := by
  have found := decides_of_mem predicts state
  simp only [decides, Bool.and_eq_true, decide_eq_true_eq] at found
  exact found.1

theorem admits_of_move (predicts : outlook.predicts g = true) (state : p ∈ outlook.states c)
    (move : m ∈ moves p) : m.2 ∈ outlook.states c ∧ outlook.admits g c m = true := by
  have found := decides_of_mem predicts state
  simp only [decides, Bool.and_eq_true, List.all_eq_true, decide_eq_true_eq] at found
  exact found.2 m move

theorem solid_of_move (predicts : outlook.predicts g = true) (state : p ∈ outlook.states c)
    (move : m ∈ moves p) {d : Category} (same : m.1 = .phrase d) : (g d).matchEpsilon = false := by
  have admits := (admits_of_move predicts state move).2
  obtain ⟨s, rest⟩ := m
  subst same
  simp only [Outlook.admits, Bool.and_eq_true, Bool.not_eq_true'] at admits
  exact admits.1

theorem opening_of_valid (predicts : outlook.predicts g = true) {d : Tree} (valid : d.Valid g)
    (solid : ∀ c, d.symbol = .phrase c → (g c).matchEpsilon = false) :
    ∃ t ts, d.tokens = t :: ts ∧ t.terminal ∈ outlook.opening d.symbol := by
  induction valid with
  | leaf t => exact ⟨t, [], rfl, List.mem_singleton_self _⟩
  | @node c parts fits _ ih =>
    cases parts with
    | nil =>
      have vanishes := matchEpsilon_of_nil_mem fits
      rw [solid c rfl] at vanishes
      contradiction
    | cons d ds =>
      obtain ⟨rest, move, _⟩ := exists_move fits
      have solid (c : Category) (same : d.symbol = .phrase c) : (g c).matchEpsilon = false :=
        solid_of_move predicts (initial_mem predicts _) move same
      obtain ⟨t, ts, tokens, opens⟩ := ih d List.mem_cons_self solid
      refine ⟨t, ts ++ Tree.allTokens ds, ?_, first_of_move predicts move opens⟩
      rw [Tree.tokens, Tree.allTokens, tokens, List.cons_append]

def Follows (outlook : Outlook) (c : Category) (ts : List Token) : Prop :=
  ∀ t ∈ ts.head?, t.terminal ∈ outlook.follow c

theorem move_of_head (predicts : outlook.predicts g = true) (state : p ∈ outlook.states c)
    {d : Tree} {ds : List Tree} (fits : (d :: ds).map Tree.symbol ∈ p.matches')
    (valid : d.Valid g) : ∃ rest t ts, (d.symbol, rest) ∈ moves p ∧
      ds.map Tree.symbol ∈ rest.matches' ∧ d.tokens = t :: ts ∧
      t.terminal ∈ outlook.opening d.symbol := by
  obtain ⟨rest, move, fits⟩ := exists_move fits
  obtain ⟨t, ts, tokens, opens⟩ := opening_of_valid predicts valid fun _ same =>
    solid_of_move predicts state move same
  exact ⟨rest, t, ts, move, fits, tokens, opens⟩

theorem ahead_of_head (predicts : outlook.predicts g = true) (state : p ∈ outlook.states c)
    {ds : List Tree} (fits : ds.map Tree.symbol ∈ p.matches') (valid : ∀ d ∈ ds, d.Valid g)
    {us : List Token} (follows : outlook.Follows c us) :
    ∀ t ∈ (Tree.allTokens ds ++ us).head?, t.terminal ∈ outlook.ahead c p := by
  intro t head
  cases ds with
  | nil =>
    refine List.mem_append_right _ ?_
    rw [if_pos (matchEpsilon_of_nil_mem fits)]
    exact follows t head
  | cons d ds =>
    obtain ⟨rest, u, ts, move, _, tokens, opens⟩ :=
      move_of_head predicts state fits (valid d List.mem_cons_self)
    rw [Tree.allTokens, tokens] at head
    obtain rfl : u = t := by simpa using head
    exact List.mem_append_left _ (List.mem_flatMap.mpr ⟨_, move, opens⟩)

theorem move_unique (predicts : outlook.predicts g = true) (state : p ∈ outlook.states c)
    {n : Symbol × RegularExpression Symbol} (move : m ∈ moves p) (other : n ∈ moves p)
    {t : Terminal} (opens : t ∈ outlook.opening m.1) (opens' : t ∈ outlook.opening n.1) :
    m = n := by
  have nodup := (List.nodup_append.mp (nodup_ahead predicts state)).1
  have apart := (List.nodup_flatMap.mp nodup).2
  have symmetric : Std.Symm (Function.onFun List.Disjoint
      fun m : Symbol × RegularExpression Symbol => outlook.opening m.1) :=
    ⟨fun _ _ disjoint => disjoint.symm⟩
  by_contra differ
  exact apart.forall move other differ opens opens'

/-- Where a phrase may end, the tokens behind it do not go on with it. -/
theorem not_continued (predicts : outlook.predicts g = true) (state : p ∈ outlook.states c)
    (ends : [] ∈ p.matches') {d : Tree} {ds : List Tree}
    (fits : (d :: ds).map Tree.symbol ∈ p.matches') (valid : d.Valid g) {us vs : List Token}
    (follows : outlook.Follows c us) : us ≠ Tree.allTokens (d :: ds) ++ vs := by
  rintro rfl
  obtain ⟨rest, t, ts, move, _, tokens, opens⟩ := move_of_head predicts state fits valid
  have behind := follows t (by rw [Tree.allTokens, tokens]; rfl)
  have disjoint := (List.nodup_append.mp (nodup_ahead predicts state)).2.2
  rw [if_pos (matchEpsilon_of_nil_mem ends)] at disjoint
  exact disjoint _ (List.mem_flatMap.mpr ⟨_, move, opens⟩) _ behind rfl

/-- Where the tree comes first among tokens, no other tree of its symbol does. -/
def Alone (outlook : Outlook) (g : Productions) (d : Tree) : Prop :=
  ∀ (e : Tree) (us vs : List Token), e.Valid g → d.symbol = e.symbol →
    (∀ c, d.symbol = .phrase c → outlook.Follows c us ∧ outlook.Follows c vs) →
    d.tokens ++ us = e.tokens ++ vs → d = e ∧ us = vs

theorem forest_unique (predicts : outlook.predicts g = true) {ds : List Tree}
    (valid : ∀ d ∈ ds, d.Valid g) (alone : ∀ d ∈ ds, outlook.Alone g d) {es : List Tree}
    (valid' : ∀ e ∈ es, e.Valid g) {us vs : List Token} (state : p ∈ outlook.states c)
    (fits : ds.map Tree.symbol ∈ p.matches') (fits' : es.map Tree.symbol ∈ p.matches')
    (follows : outlook.Follows c us) (follows' : outlook.Follows c vs)
    (same : Tree.allTokens ds ++ us = Tree.allTokens es ++ vs) : ds = es ∧ us = vs := by
  induction ds generalizing p es with
  | nil =>
    cases es with
    | nil => exact ⟨rfl, same⟩
    | cons e es =>
      exact absurd same
        (not_continued predicts state fits fits' (valid' e List.mem_cons_self) follows)
  | cons d ds ih =>
    cases es with
    | nil =>
      exact absurd same.symm
        (not_continued predicts state fits' fits (valid d List.mem_cons_self) follows')
    | cons e es =>
      -- Both forests start with the same token, so with the same symbol.
      obtain ⟨rest, t, ts, move, fitsTail, tokens, opens⟩ :=
        move_of_head predicts state fits (valid d List.mem_cons_self)
      obtain ⟨rest', t', ts', move', fitsTail', tokens', opens'⟩ :=
        move_of_head predicts state fits' (valid' e List.mem_cons_self)
      simp only [Tree.allTokens, List.append_assoc] at same
      obtain rfl : t = t' := by
        rw [tokens, tokens'] at same
        exact (List.cons.inj same).1
      obtain ⟨sameSymbol, rfl⟩ := Prod.mk.inj (move_unique predicts state move move' opens opens')
      have validTail : ∀ d ∈ ds, d.Valid g := fun x member =>
        valid x (List.mem_cons_of_mem d member)
      have validTail' : ∀ e ∈ es, e.Valid g := fun x member =>
        valid' x (List.mem_cons_of_mem e member)
      -- The trees can only be compared in front of tokens that may follow their symbol.
      obtain ⟨state, admits⟩ := admits_of_move predicts state move
      have followsTail (b : Category) (isPhrase : d.symbol = .phrase b) :
          outlook.Follows b (Tree.allTokens ds ++ us) ∧
            outlook.Follows b (Tree.allTokens es ++ vs) := by
        simp only [isPhrase, Outlook.admits, Bool.and_eq_true, List.all_eq_true,
          decide_eq_true_eq] at admits
        have ahead := ahead_of_head predicts state fitsTail validTail follows
        have ahead' := ahead_of_head predicts state fitsTail' validTail' follows'
        exact ⟨fun t head => admits.2 _ (ahead t head), fun t head => admits.2 _ (ahead' t head)⟩
      obtain ⟨rfl, sameTail⟩ := alone d List.mem_cons_self e _ _ (valid' e List.mem_cons_self)
        sameSymbol followsTail same
      obtain ⟨rfl, sameRest⟩ := ih validTail
        (fun x member => alone x (List.mem_cons_of_mem d member)) validTail' state fitsTail
        fitsTail' sameTail
      exact ⟨rfl, sameRest⟩

theorem alone_of_valid (predicts : outlook.predicts g = true) {d : Tree} (valid : d.Valid g) :
    outlook.Alone g d := by
  induction valid with
  | leaf t =>
    intro e us vs valid' sameSymbol follows same
    cases valid' with
    | leaf t' =>
      obtain ⟨rfl, rfl⟩ := List.cons.inj same
      exact ⟨rfl, rfl⟩
    | node => cases sameSymbol
  | @node c parts fits valid ih =>
    intro e us vs valid' sameSymbol follows same
    cases valid' with
    | leaf => cases sameSymbol
    | node fits' valid' =>
      cases sameSymbol
      obtain ⟨follows, follows'⟩ := follows c rfl
      obtain ⟨rfl, sameRest⟩ := forest_unique predicts valid ih valid' (initial_mem predicts c) fits
        fits' follows follows' same
      exact ⟨rfl, sameRest⟩

theorem unambiguous_of_predicts (predicts : outlook.predicts g = true) : Unambiguous g := by
  intro d e valid valid' sameSymbol same
  have none_follows (c : Category) : outlook.Follows c [] := by
    intro t head
    cases head
  have found := alone_of_valid predicts valid e [] [] valid' sameSymbol
    (fun c _ => ⟨none_follows c, none_follows c⟩) (by rw [same])
  exact found.1

end Unique

end Outlook

/-- The first terminals and the following ones, read off the productions. -/
def outlook : Outlook where
  first c :=
    let operands := [.number, .string, .identifier, .leftParen, .leftSquare]
    match c with
    | .list => [.leftSquare]
    | .atom | .call | .power => operands
    | .factor | .term | .arithmetic => .plus :: .minus :: operands
    | .comparison | .logic => .bang :: .plus :: .minus :: operands
    | .expr => .letWord :: .bang :: .plus :: .minus :: operands
    | .statements => .semicolon :: .letWord :: .bang :: .plus :: .minus :: operands
  follow c :=
    let ends := [.semicolon, .comma, .rightParen, .rightSquare]
    let logical := ends ++ [.andWord, .orWord]
    let relational := logical ++
      [.equalEqual, .notEqual, .lessThan, .lessThanEqual, .greaterThan, .greaterThanEqual]
    let additive := relational ++ [.plus, .minus]
    let multiplicative := additive ++ [.star, .slash]
    match c with
    | .statements => []
    | .expr | .logic => ends
    | .comparison => logical
    | .arithmetic => relational
    | .term => additive
    | .factor | .power => multiplicative
    | .call => multiplicative ++ [.power]
    | .atom | .list => multiplicative ++ [.power, .leftParen]
  states c := reach 7 [refined c]

theorem outlook_predicts : outlook.predicts refined = true := by decide +kernel

end SceneScript.Ebnf
