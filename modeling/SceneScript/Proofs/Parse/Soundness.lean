import SceneScript.Proofs.Parse.Moves

/-!
The parser by precedence finds nothing but readings. The tokens that it has taken are those of the
finished statements, of the frames from the bottom to the top, and of the operand it is at; each
step keeps that (`Invariant`).
-/

namespace SceneScript

namespace Frame

/-- The tokens from which a frame was made. -/
def Holds : Frame → List Token → Prop
  | .assign name, ts => ∃ word equals, ts = [word, name, equals] ∧ word.isLet ∧
      name.kind = .identifier ∧ equals.kind = .equal
  | .binary level left op, ts => ∃ us, ts = us ++ [op] ∧ Level.ofToken? op = some level ∧
      Reads level.before us left
  | .negate op, ts => ts = [op] ∧ op.kind = .bang
  | .sign op, ts => ts = [op] ∧ op.isSign
  | .group, ts => ∃ l, ts = [l] ∧ l.kind = .leftParen
  | .call callee args, ts => ∃ us l vs, ts = us ++ l :: vs ∧ Reads 8 us callee ∧
      l.kind = .leftParen ∧ Leading (Reads 0) vs args
  | .list opener elements, ts => ∃ vs, ts = opener :: vs ∧ opener.kind = .leftSquare ∧
      Leading (Reads 0) vs elements

theorem Holds.complete {f : Frame} {us vs : List Token} {x n : Node} (holds : f.Holds us)
    (operand : Reads f.demand vs x) (complete : f.complete? x = some n) :
    Reads f.rank (us ++ vs) n := by
  cases f with
  | assign name =>
    obtain ⟨word, equals, rfl, isLet, isName, sign⟩ := holds
    cases complete
    exact .assignment isLet isName sign operand
  | binary level left op =>
    obtain ⟨us, rfl, operator, first⟩ := holds
    cases complete
    rw [List.append_assoc]
    exact .binary operator first operand
  | negate op =>
    obtain ⟨rfl, kind⟩ := holds
    cases complete
    exact .negation kind operand
  | sign op =>
    obtain ⟨rfl, kind⟩ := holds
    cases complete
    exact .sign kind operand
  | group | call | list => cases complete

theorem demand_le_six (f : Frame) : f.demand ≤ 6 := by
  cases f with
  | binary level left op => cases level <;> simp [demand, Level.behind]
  | assign | negate | sign | group | call | list => simp [demand]

end Frame

/-- The tokens of a stack of frames. A frame stands where what it becomes is tight enough. -/
inductive Stacked : List Frame → List Token → Prop
  | nil : Stacked [] []
  | cons {f : Frame} {frames : List Frame} {us ts : List Token} (below : Stacked frames us)
      (fits : ∀ g ∈ frames.head?, g.demand ≤ f.rank) (holds : f.Holds ts) :
      Stacked (f :: frames) (us ++ ts)

/-- Completing frames keeps the tokens. What comes out is as tight as what went in or as the last
    completed frame, and tight enough for the frame that is left. -/
theorem Stacked.reduceWhile (ends : Frame → Bool) {frames : List Frame} {us vs : List Token}
    {x : Node} {k : Nat} (stacked : Stacked frames us) (operand : Reads k vs x)
    (fits : ∀ g ∈ frames.head?, g.demand ≤ k) :
    ∃ us' vs' k', Stacked (reduceWhile ends x frames).2 us' ∧
      Reads k' vs' (SceneScript.reduceWhile ends x frames).1 ∧ us' ++ vs' = us ++ vs ∧
      (∀ g ∈ (SceneScript.reduceWhile ends x frames).2.head?,
        g.demand ≤ k' ∧ (g.bracket?.isSome ∨ ends g = false)) ∧
      (k' = k ∨ ∃ f : Frame, f.bracket? = none ∧ ends f = true ∧ k' = f.rank) := by
  induction stacked generalizing x k vs with
  | nil => exact ⟨[], vs, k, .nil, operand, rfl, by simp [SceneScript.reduceWhile], .inl rfl⟩
  | @cons f frames us ts below tight holds ih =>
    have bound : f.demand ≤ k := fits f (by simp)
    simp only [SceneScript.reduceWhile]
    split
    · rename_i n complete
      split
      · rename_i ending
        -- The completed frame is now the operand of the one below it.
        have completed := holds.complete (operand.weaken bound) complete
        obtain ⟨us', vs', k', stacked', reads', same, stops, last⟩ := ih completed tight
        refine ⟨us', vs', k', stacked', reads', by rw [same, List.append_assoc], stops, ?_⟩
        rcases last with rfl | last
        · exact .inr ⟨f, Frame.bracket?_of_complete? complete, ending, rfl⟩
        · exact .inr last
      · rename_i staying
        refine ⟨us ++ ts, vs, k, .cons below tight holds, operand, rfl, ?_, .inl rfl⟩
        simpa [bound] using Or.inr staying
    · rename_i bracket
      refine ⟨us ++ ts, vs, k, .cons below tight holds, operand, rfl, ?_, .inl rfl⟩
      have isBracket : f.bracket?.isSome := by
        cases f <;> first | rfl | cases bracket
      simp [bound, isBracket]

namespace Parser

def Focused (frames : List Frame) : Focus → List Token → Prop
  | .statement, ts => frames = [] ∧ ts = []
  | .operand, ts => Stacked frames ts
  | .item, ts => Stacked frames ts ∧ ((∃ callee outer, frames = .call callee [] :: outer) ∨
      ∃ opener outer, frames = .list opener [] :: outer)
  | .name, ts => ∃ us word, ts = us ++ [word] ∧ Stacked frames us ∧ word.isLet ∧
      ∀ g ∈ frames.head?, g.demand = 0
  | .equals name, ts => ∃ us word, ts = us ++ [word, name] ∧ Stacked frames us ∧ word.isLet ∧
      (∀ g ∈ frames.head?, g.demand = 0) ∧ name.kind = .identifier
  | .operator x callable, ts => ∃ us vs, ts = us ++ vs ∧ Stacked frames us ∧
      Reads (if callable then 8 else 7) vs x

/-- What the parser holds after the given tokens. -/
def Invariant (p : Parser) (ts : List Token) : Prop :=
  ∃ us vs, ts = us ++ vs ∧ Statements (Reads 0) us p.statements.reverse ∧
    Focused p.frames p.focus vs

theorem Focused.push {f : Frame} {frames : List Frame} {ts us : List Token}
    (stacked : Stacked frames ts) (fits : ∀ g ∈ frames.head?, g.demand ≤ f.rank)
    (holds : f.Holds us) : Focused (f :: frames) .operand (ts ++ us) :=
  Stacked.cons stacked fits holds

theorem Focused.atom {frames : List Frame} {ts us : List Token} {n : Node}
    (stacked : Stacked frames ts) (atom : Reads 8 us n) :
    Focused frames (.operator n true) (ts ++ us) :=
  ⟨ts, us, rfl, stacked, atom⟩

theorem Focused.startOperand {p q : Parser} {t : Token} {ts : List Token}
    (stacked : Stacked p.frames ts) (stepped : p.startOperand t = .ok q) :
    q.statements = p.statements ∧ Focused q.frames q.focus (ts ++ [t]) := by
  have fits (f : Frame) (tight : 6 ≤ f.rank) : ∀ g ∈ p.frames.head?, g.demand ≤ f.rank :=
    fun g _ => Nat.le_trans g.demand_le_six tight
  have starts := p.starts t
  rw [stepped] at starts
  cases starts with
  | number kind => exact ⟨rfl, .atom stacked (.number kind)⟩
  | string kind => exact ⟨rfl, .atom stacked (.string kind)⟩
  | identifier kind => exact ⟨rfl, .atom stacked (.identifier kind)⟩
  | group kind => exact ⟨rfl, .push stacked (fits .group (by decide)) ⟨t, rfl, kind⟩⟩
  | list kind =>
    refine ⟨rfl, .cons stacked (fits (.list t []) (by simp [Frame.rank])) ⟨[], rfl, kind, .nil⟩, ?_⟩
    exact .inr ⟨t, p.frames, rfl⟩
  | sign isSign =>
    exact ⟨rfl, .push stacked (fits (.sign t) (by simp [Frame.rank])) ⟨rfl, isSign⟩⟩
  | negate kind admitted =>
    refine ⟨rfl, .push stacked (fun g head => ?_) ⟨rfl, kind⟩⟩
    exact Frame.admitsNegation_iff.mp ((Option.all_eq_true ..).mp admitted g head)
  | name isLet admitted =>
    refine ⟨rfl, ts, t, rfl, stacked, isLet, fun g head => ?_⟩
    exact Frame.admitsAssignment_iff.mp ((Option.all_eq_true ..).mp admitted g head)

theorem Invariant.endPart {p q : Parser} {part : Node} {frames : List Frame} {t : Token}
    {ts us vs : List Token} (done : Statements (Reads 0) ts p.statements.reverse)
    (stacked : Stacked frames us) (reads : Reads 0 vs part)
    (brackets : ∀ f ∈ frames.head?, f.bracket?.isSome)
    (stepped : p.endPart part frames t = .ok q) : q.Invariant (ts ++ (us ++ vs) ++ [t]) := by
  have ends := p.endsPart part t brackets
  rw [stepped] at ends
  cases ends with
  | group kind =>
    cases stacked with | @cons _ _ us ls below fits holds =>
    obtain ⟨l, rfl, opener⟩ := holds
    refine ⟨ts, us ++ ([l] ++ vs ++ [t]), by simp, done, ?_⟩
    exact .atom below (.group opener reads kind)
  | call kind =>
    cases stacked with | @cons _ _ us ls below fits holds =>
    obtain ⟨as, l, bs, rfl, atom, opener, leading⟩ := holds
    refine ⟨ts, us ++ (as ++ (l :: (bs ++ vs) ++ [t])), by simp, done, ?_⟩
    exact ⟨us, _, rfl, below, .call atom opener (.snoc leading reads) kind⟩
  | argument kind =>
    cases stacked with | @cons _ _ us ls below fits holds =>
    obtain ⟨as, l, bs, rfl, atom, opener, leading⟩ := holds
    refine ⟨ts, us ++ (as ++ l :: (bs ++ vs ++ [t])), by simp, done, ?_⟩
    exact .push below fits ⟨as, l, _, rfl, atom, opener, .snoc leading reads kind⟩
  | @list opener elements outer kind =>
    cases stacked with | @cons _ _ us ls below fits holds =>
    obtain ⟨bs, rfl, isOpener, leading⟩ := holds
    refine ⟨ts, us ++ (opener :: (bs ++ vs) ++ [t]), by simp, done, ?_⟩
    exact .atom below (.list isOpener (.snoc leading reads) kind)
  | @element opener elements outer kind =>
    cases stacked with | @cons _ _ us ls below fits holds =>
    obtain ⟨bs, rfl, isOpener, leading⟩ := holds
    refine ⟨ts, us ++ (opener :: (bs ++ vs ++ [t])), by simp, done, ?_⟩
    exact .push below fits ⟨_, rfl, isOpener, .snoc leading reads kind⟩
  | statement kind =>
    cases stacked
    refine ⟨ts ++ vs ++ [t], [], by simp, ?_, rfl, rfl⟩
    simpa using done.snoc reads kind

theorem Invariant.afterOperand {p q : Parser} {x : Node} {callable : Bool} {t : Token}
    {ts us vs : List Token} (done : Statements (Reads 0) ts p.statements.reverse)
    (stacked : Stacked p.frames us) (reads : Reads (if callable then 8 else 7) vs x)
    (stepped : p.afterOperand x callable t = .ok q) : q.Invariant (ts ++ (us ++ vs) ++ [t]) := by
  have tight : 7 ≤ if callable then 8 else 7 := by split <;> omega
  have fits (f : Frame) : f.demand ≤ if callable then 8 else 7 :=
    Nat.le_trans f.demand_le_six (Nat.le_trans (by omega) tight)
  unfold Parser.afterOperand at stepped
  split at stepped
  · rename_i opens
    cases stepped
    have atom : Reads 8 vs x := by simpa [opens.2] using reads
    refine ⟨ts, us ++ (vs ++ [t]), by simp, done, ?_, .inl ⟨x, p.frames, rfl⟩⟩
    refine .cons stacked (fun g _ => Nat.le_trans g.demand_le_six (by simp [Frame.rank])) ?_
    exact ⟨vs, t, [], rfl, atom, opens.1, .nil⟩
  · split at stepped
    · rename_i level operator
      obtain ⟨us', vs', k, stacked', reads', same, stops, last⟩ :=
        stacked.reduceWhile (·.yieldsTo level) reads (fun g _ => fits g)
      cases stepped
      have left : level.before ≤ k := by
        rcases last with rfl | ⟨f, closed, yields, rfl⟩
        · exact Nat.le_trans (by cases level <;> decide) tight
        · exact (Frame.yieldsTo_iff_before_le_rank closed).mp yields
      refine ⟨ts, us' ++ (vs' ++ [t]), by simp [← same], done, .push stacked' ?_ ?_⟩
      · intro g head
        rcases (stops g head).2 with bracket | stays
        · cases g <;> first | exact Nat.zero_le _ | cases bracket
        · exact Frame.yieldsTo_eq_false_iff.mp stays
      · exact ⟨vs', rfl, operator, reads'.weaken left⟩
    · obtain ⟨us', vs', k, stacked', reads', same, stops, -⟩ :=
        stacked.reduceWhile (fun _ => true) reads (fun g _ => fits g)
      rw [← same]
      refine Invariant.endPart done stacked' (reads'.weaken (Nat.zero_le k)) ?_ stepped
      intro f head
      simpa using (stops f head).2

theorem Focused.startItem {p q : Parser} {t : Token} {ts : List Token}
    (focused : Focused p.frames .item ts) (stepped : p.startItem t = .ok q) :
    q.statements = p.statements ∧ Focused q.frames q.focus (ts ++ [t]) := by
  obtain ⟨stacked, ⟨callee, outer, top⟩ | ⟨opener, outer, top⟩⟩ := focused
  · simp only [Parser.startItem, top] at stepped
    split at stepped
    · rename_i kind
      cases stepped
      rw [top] at stacked
      cases stacked with | @cons _ _ us ls below fits holds =>
      obtain ⟨as, l, bs, rfl, atom, isOpener, leading⟩ := holds
      obtain rfl := leading.tokens_eq_nil
      refine ⟨rfl, us, as ++ (l :: [] ++ [t]), by simp, below, ?_⟩
      exact .call atom isOpener .nil kind
    · exact Focused.startOperand stacked stepped
  · simp only [Parser.startItem, top] at stepped
    split at stepped
    · rename_i kind
      cases stepped
      rw [top] at stacked
      cases stacked with | @cons _ _ us ls below fits holds =>
      obtain ⟨bs, rfl, isOpener, leading⟩ := holds
      obtain rfl := leading.tokens_eq_nil
      refine ⟨rfl, us, opener :: [] ++ [t], by simp, below, ?_⟩
      exact .list isOpener .nil kind
    · exact Focused.startOperand stacked stepped

theorem Invariant.step {p q : Parser} {t : Token} {ts : List Token} (invariant : p.Invariant ts)
    (stepped : p.step t = .ok q) : q.Invariant (ts ++ [t]) := by
  obtain ⟨us, vs, rfl, done, focused⟩ := invariant
  have keep (h : q.statements = p.statements ∧ Focused q.frames q.focus (vs ++ [t])) :
      q.Invariant (us ++ vs ++ [t]) :=
    ⟨us, vs ++ [t], by simp, by rw [h.1]; exact done, h.2⟩
  unfold Parser.step at stepped
  split at stepped
  next focus =>
    rw [focus] at focused
    obtain ⟨bottom, rfl⟩ := focused
    split at stepped
    · rename_i kind
      cases stepped
      refine ⟨us ++ [t], [], by simp, done.skip kind, ?_⟩
      rw [focus]
      exact ⟨bottom, rfl⟩
    · exact keep (Focused.startOperand (by rw [bottom]; exact .nil) stepped)
  next focus =>
    rw [focus] at focused
    exact keep (Focused.startOperand focused stepped)
  next focus =>
    rw [focus] at focused
    exact keep (Focused.startItem focused stepped)
  next focus =>
    rw [focus] at focused
    obtain ⟨as, word, rfl, stacked, isLet, top⟩ := focused
    split at stepped
    · rename_i kind
      cases stepped
      exact keep ⟨rfl, as, word, by simp, stacked, isLet, top, kind⟩
    · cases stepped
  next name focus =>
    rw [focus] at focused
    obtain ⟨as, word, rfl, stacked, isLet, top, isName⟩ := focused
    split at stepped
    · rename_i kind
      cases stepped
      refine keep ⟨rfl, ?_⟩
      rw [List.append_assoc]
      exact .push stacked (fun g head => Nat.le_of_eq (top g head))
        ⟨word, t, rfl, isLet, isName, kind⟩
    · cases stepped
  next x callable focus =>
    rw [focus] at focused
    obtain ⟨as, bs, rfl, stacked, reads⟩ := focused
    exact Invariant.afterOperand done stacked reads stepped

theorem Invariant.run {p q : Parser} {ts us : List Token} (invariant : p.Invariant ts)
    (ran : p.run us = .ok q) : q.Invariant (ts ++ us) := by
  induction us generalizing p ts with
  | nil =>
    cases ran
    simpa using invariant
  | cons t us ih =>
    rw [run_cons] at ran
    cases stepped : p.step t with
    | error fault => simp [stepped, bind, Except.bind] at ran
    | ok r =>
      simp only [stepped, bind, Except.bind] at ran
      simpa using ih (invariant.step stepped) ran

theorem invariant_initial : initial.Invariant [] := ⟨[], [], rfl, .nil, rfl, rfl⟩

/-- A parser that may stop has read statements. -/
theorem statements_of_run {ts : List Token} {p : Parser} (ran : initial.run ts = .ok p)
    (complete : p.missing? = none) : Statements (Reads 0) ts p.statements.reverse := by
  obtain ⟨us, vs, same, done, focused⟩ := invariant_initial.run ran
  have focus : p.focus = .statement := by
    unfold missing? at complete
    split at complete <;> first | assumption | cases complete
  rw [focus] at focused
  obtain ⟨-, rfl⟩ := focused
  obtain rfl : ts = us := by simpa using same
  exact done

end Parser

/-- Tokens are statements in at most one way. -/
theorem Statements.unique {ts : List Token} {body other : List Node}
    (statements : Statements (Reads 0) ts body) (others : Statements (Reads 0) ts other) :
    body = other := by
  have ran := Parser.run_statements statements
  rw [Parser.run_statements others] at ran
  have same : other.reverse = body.reverse := congrArg Parser.statements (Except.ok.inj ran)
  exact (List.reverse_inj.mp same).symm

/-- A text is parsed exactly if it can be scanned and its tokens are statements. -/
theorem parse_eq_ok_iff {origin : Origin} {p : Program} :
    parse origin = .ok p ↔ ∃ ts stop body, TokenStream.ofOrigin origin = ⟨ts, .finished stop⟩ ∧
      Statements (Reads 0) ts body ∧ p = .ofBody origin body := by
  constructor
  · intro parsed
    unfold parse at parsed
    cases ran : (TokenStream.ofOrigin origin).tokens.foldlM Parser.step .initial with
    | error fault => simp [ran, bind, Except.bind] at parsed
    | ok q =>
      simp only [ran, bind, Except.bind, Parser.finish] at parsed
      split at parsed
      · cases parsed
      · rename_i stop ending
        split at parsed
        · rename_i complete
          cases parsed
          refine ⟨_, stop, q.statements.reverse, ?_, Parser.statements_of_run ran complete, rfl⟩
          rw [← ending]
        · cases parsed
  · rintro ⟨ts, stop, body, stream, statements, rfl⟩
    have ran : ts.foldlM Parser.step .initial = _ := Parser.run_statements statements
    simp [parse, stream, ran, bind, Except.bind, Parser.finish, Parser.missing?]

end SceneScript
