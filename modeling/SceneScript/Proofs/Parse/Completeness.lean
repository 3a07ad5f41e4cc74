import SceneScript.Proofs.Parse.Reading

/-!
The parser by precedence finds every reading. While a part is read, the frames that it leaves on the
stack bind at least as tightly as the part (`Completes`), so what may follow the part completes
them all.
-/

namespace SceneScript

namespace Frame

/-- The rank of the operand that the frame waits for. -/
def demand : Frame → Nat
  | .binary level _ _ => level.behind
  | .negate _ => 2
  | .sign _ => 6
  | .assign _ | .group | .call .. | .list .. => 0

/-- The rank of what the frame becomes. -/
def rank : Frame → Nat
  | .assign _ => 0
  | .binary level _ _ => level.result
  | .negate _ => 2
  | .sign _ => 6
  | .call .. => 7
  | .group | .list .. => 8

theorem yieldsTo_iff_before_le_rank {f : Frame} {level : Level} (closed : f.bracket? = none) :
    f.yieldsTo level = true ↔ level.before ≤ f.rank := by
  cases f with
  | binary own left op =>
    cases own <;> cases level <;>
      simp [rank, yieldsTo, Level.before, Level.result, Level.rank]
  | assign | negate | sign => cases level <;> simp [rank, yieldsTo, Level.before, Level.result]
  | group | call | list => cases closed

theorem yieldsTo_eq_false_iff {f : Frame} {level : Level} :
    f.yieldsTo level = false ↔ f.demand ≤ level.result := by
  cases f with
  | binary own left op =>
    cases own <;> cases level <;>
      simp [demand, yieldsTo, Level.behind, Level.result, Level.rank]
  | assign | negate | sign | group | call | list =>
    cases level <;> simp [demand, yieldsTo, Level.result]

theorem admitsNegation_iff {f : Frame} : f.admitsNegation = true ↔ f.demand ≤ 2 := by
  cases f with
  | binary level left op => cases level <;> simp [admitsNegation, demand, Level.behind]
  | assign | negate | sign | group | call | list => simp [admitsNegation, demand]

theorem admitsAssignment_iff {f : Frame} : f.admitsAssignment = true ↔ f.demand = 0 := by
  cases f with
  | binary level left op => cases level <;> simp [admitsAssignment, demand, Level.behind]
  | assign | negate | sign | group | call | list => simp [admitsAssignment, demand]

theorem rank_le_of_complete? {f : Frame} {x n : Node} (completes : f.complete? x = some n) :
    f.rank ≤ 6 := by
  cases f with
  | binary level left op => cases level <;> simp [rank, Level.result]
  | assign | negate | sign => simp [rank]
  | group | call | list => cases completes

theorem bracket?_of_complete? {f : Frame} {x n : Node} (completes : f.complete? x = some n) :
    f.bracket? = none := by
  cases f with
  | binary | assign | negate | sign => rfl
  | group | call | list => cases completes

end Frame

/-- Completing the frames one after the other, from the operand on, gives the node. -/
inductive Folds : List Frame → Node → Node → Prop
  | nil {n : Node} : Folds [] n n
  | cons {f : Frame} {frames : List Frame} {x y n : Node} (completes : f.complete? x = some y)
      (rest : Folds frames y n) : Folds (f :: frames) x n

namespace Folds

theorem snoc {frames : List Frame} {f : Frame} {x y n : Node} (folds : Folds frames x y)
    (completes : f.complete? y = some n) : Folds (frames ++ [f]) x n := by
  induction folds with
  | nil => exact .cons completes .nil
  | cons first _ ih => exact .cons first (ih completes)

theorem closed {frames : List Frame} {x n : Node} (folds : Folds frames x n) :
    ∀ f ∈ frames, f.bracket? = none ∧ f.rank ≤ 6 := by
  induction folds with
  | nil => simp
  | cons completes _ ih =>
    intro f member
    rcases List.mem_cons.mp member with rfl | member
    · exact ⟨Frame.bracket?_of_complete? completes, Frame.rank_le_of_complete? completes⟩
    · exact ih f member

theorem reduceWhile_eq {frames rest : List Frame} {ends : Frame → Bool} {x n : Node}
    (folds : Folds frames x n) (ending : ∀ f ∈ frames, ends f = true)
    (stops : ∀ f ∈ rest.head?, ends f = false ∨ f.bracket?.isSome) :
    reduceWhile ends x (frames ++ rest) = (n, rest) := by
  induction folds with
  | nil =>
    cases rest with
    | nil => rfl
    | cons f rest =>
      simp only [List.nil_append, reduceWhile]
      rcases stops f (by simp) with stays | bracket
      · split <;> simp [stays]
      · cases f <;> first | rfl | cases bracket
  | @cons f _ _ _ _ completes _ ih =>
    have top := ending f (by simp)
    simp only [List.cons_append, reduceWhile, completes, top, if_true]
    exact ih fun f member => ending f (by simp [member])

end Folds

namespace Parser

def run (p : Parser) (ts : List Token) : Except ParseFault Parser := ts.foldlM step p

@[simp] theorem run_nil (p : Parser) : p.run [] = .ok p := rfl

theorem run_cons (p : Parser) (t : Token) (ts : List Token) :
    p.run (t :: ts) = p.step t >>= fun q => q.run ts := by
  simp [run]

theorem run_append (p : Parser) (us ts : List Token) :
    p.run (us ++ ts) = p.run us >>= fun q => q.run ts := by
  simp [run]

theorem run_append_of_ok {p q : Parser} {us : List Token} (ts : List Token)
    (first : p.run us = .ok q) : p.run (us ++ ts) = q.run ts := by
  rw [run_append, first]
  rfl

theorem run_cons_of_ok {p q : Parser} {t : Token} (ts : List Token) (first : p.step t = .ok q) :
    p.run (t :: ts) = q.run ts := by
  rw [run_cons, first]
  rfl

/-- The next token starts an operand, unless it ends or closes something. -/
def Expecting (p : Parser) : Prop :=
  p.focus = .statement ∨ p.focus = .operand ∨ p.focus = .item

theorem step_eq_startOperand {p : Parser} {t : Token} (expecting : p.Expecting)
    (plain : t.kind ≠ .semicolon ∧ t.kind ≠ .rightParen ∧ t.kind ≠ .rightSquare) :
    p.step t = p.startOperand t := by
  obtain ⟨notEnd, notParen, notSquare⟩ := plain
  rcases expecting with focus | focus | focus
  · simp [step, focus, notEnd]
  · simp [step, focus]
  · simp only [step, focus, startItem]
    split <;> simp [notParen, notSquare]

/-- Behind an operand, a token that is no operator ends the part. -/
theorem step_eq_endPart {p : Parser} {frames rest : List Frame} {x n : Node} {b : Bool} {t : Token}
    (focus : p.focus = .operator x b) (stack : p.frames = frames ++ rest) (folds : Folds frames x n)
    (brackets : ∀ f ∈ rest.head?, f.bracket?.isSome) (notOpener : t.kind ≠ .leftParen)
    (notOperator : Level.ofToken? t = none) : p.step t = p.endPart n rest t := by
  have reduced : reduceWhile (fun _ => true) x p.frames = (n, rest) := by
    rw [stack]
    exact folds.reduceWhile_eq (fun _ _ => rfl) fun f head => Or.inr (brackets f head)
  simp [step, focus, afterOperand, notOpener, notOperator, reduced]

/-- What reading a part of the given rank does to a parser that expects it. -/
def Completes (k : Nat) (ts : List Token) (n : Node) : Prop :=
  ∀ p : Parser, p.Expecting → (∀ f ∈ p.frames.head?, f.demand ≤ k) →
    ∃ frames x b, p.run ts = .ok ⟨p.statements, frames ++ p.frames, .operator x b⟩ ∧
      Folds frames x n ∧ (∀ f ∈ frames, k ≤ f.rank) ∧ (8 ≤ k → b = true)

theorem Completes.single {t : Token} {n : Node}
    (starts : ∀ p : Parser, p.startOperand t = .ok (p.look (.operator n true)))
    (plain : t.kind ≠ .semicolon ∧ t.kind ≠ .rightParen ∧ t.kind ≠ .rightSquare) :
    Completes 8 [t] n := by
  intro p expecting _
  refine ⟨[], n, true, ?_, .nil, by simp, fun _ => rfl⟩
  rw [run_cons_of_ok [] ((step_eq_startOperand expecting plain).trans (starts p))]
  rfl

theorem Completes.behind {k : Nat} {ts : List Token} {n : Node} (completes : Completes k ts n)
    (p : Parser) (f : Frame) (bound : f.demand ≤ k) :
    ∃ frames x b, (p.push f .operand).run ts =
        .ok ⟨p.statements, frames ++ f :: p.frames, .operator x b⟩ ∧
      Folds frames x n ∧ (∀ g ∈ frames, k ≤ g.rank) :=
  have ⟨frames, x, b, ran, folds, ranks, _⟩ := completes (p.push f .operand) (.inr (.inl rfl))
    (by simpa [push] using bound)
  ⟨frames, x, b, ran, folds, ranks⟩

/-- A frame of one operand, pushed by a token, is left on the stack below what its operand left. -/
theorem Completes.unary {k : Nat} {op : Token} {ts : List Token} {n m : Node} (f : Frame)
    (starts : ∀ p : Parser, (∀ g ∈ p.frames.head?, g.demand ≤ k) →
      p.startOperand op = .ok (p.push f .operand))
    (plain : op.kind ≠ .semicolon ∧ op.kind ≠ .rightParen ∧ op.kind ≠ .rightSquare)
    (demand : f.demand = k) (rank : f.rank = k) (complete : f.complete? n = some m) (low : k < 8)
    (operand : Completes k ts n) : Completes k (op :: ts) m := by
  intro p expecting admits
  obtain ⟨frames, x, b, ran, folds, ranks⟩ := operand.behind p f (by omega)
  refine ⟨frames ++ [f], x, b, ?_, folds.snoc complete, ?_, by omega⟩
  · rw [run_cons_of_ok ts ((step_eq_startOperand expecting plain).trans (starts p admits)), ran]
    simp
  · intro g member
    rcases List.mem_append.mp member with member | member
    · exact ranks g member
    · simp [List.mem_singleton.mp member, rank]

/-- A bracket with parts between commas: `frame` while it is open, `node` once it is closed. -/
structure Bracketing (frame : List Node → Frame) (close : TokenKind)
    (node : List Node → Token → Node) (callable : Bool) : Prop where
  bracket : ∀ ns, (frame ns).bracket?.isSome
  demand : ∀ ns, (frame ns).demand = 0
  ends : close = .rightParen ∨ close = .rightSquare
  comma : ∀ (p : Parser) ns part outer t, t.kind = .comma →
    p.endPart part (frame ns :: outer) t =
      .ok ⟨p.statements, frame (ns ++ [part]) :: outer, .operand⟩
  finish : ∀ (p : Parser) ns part outer t, t.kind = close →
    p.endPart part (frame ns :: outer) t =
      .ok ⟨p.statements, outer, .operator (node (ns ++ [part]) t) callable⟩
  empty : ∀ (p : Parser) t, t.kind = close → (p.push (frame []) .item).step t =
    .ok ⟨p.statements, p.frames, .operator (node [] t) callable⟩

theorem bracketing_list (opener : Token) :
    Bracketing (.list opener) .rightSquare (.enumerate opener) true where
  bracket _ := rfl
  demand _ := rfl
  ends := .inr rfl
  comma p ns part outer t kind := by simp [endPart, kind]
  finish p ns part outer t kind := by simp [endPart, kind]
  empty p t kind := by simp [step, push, startItem, kind]

theorem bracketing_call (callee : Node) :
    Bracketing (.call callee) .rightParen (.invoke callee) false where
  bracket _ := rfl
  demand _ := rfl
  ends := .inl rfl
  comma p ns part outer t kind := by simp [endPart, kind]
  finish p ns part outer t kind := by simp [endPart, kind]
  empty p t kind := by simp [step, push, startItem, kind]

theorem ofToken?_eq_none {t : Token} (kind : t.kind = .comma ∨ t.kind = .rightParen ∨
    t.kind = .rightSquare ∨ t.kind = .semicolon) : Level.ofToken? t = none := by
  rcases kind with kind | kind | kind | kind <;> simp [Level.ofToken?, kind]

namespace Bracketing

variable {frame : List Node → Frame} {close : TokenKind} {node : List Node → Token → Node}
  {callable : Bool}

theorem step_item (bracketing : Bracketing frame close node callable) {us : List Token} {n : Node}
    (item : Completes 0 us n) {p : Parser} (expecting : p.Expecting) {ms : List Node}
    {outer : List Frame} (stack : p.frames = frame ms :: outer) :
    ∃ q : Parser, p.run us = .ok q ∧ q.statements = p.statements ∧
      ∀ t, t.kind ≠ .leftParen → Level.ofToken? t = none →
        q.step t = q.endPart n (frame ms :: outer) t := by
  have admits : ∀ f ∈ p.frames.head?, f.demand ≤ 0 := by
    simp [stack, bracketing.demand ms]
  obtain ⟨frames, x, b, ran, folds, -, -⟩ := item p expecting admits
  refine ⟨_, ran, rfl, ?_⟩
  intro t notOpener notOperator
  apply step_eq_endPart rfl (by rw [stack]) folds ?_ notOpener notOperator
  simp [bracketing.bracket ms]

theorem run_leading (bracketing : Bracketing frame close node callable) {ts : List Token}
    {ns : List Node} (leading : Leading (Completes 0) ts ns) {p : Parser} (expecting : p.Expecting)
    {outer : List Frame} (stack : p.frames = frame [] :: outer) :
    ∃ q : Parser, p.run ts = .ok q ∧ q.Expecting ∧ q.statements = p.statements ∧
      q.frames = frame ns :: outer := by
  induction leading with
  | nil => exact ⟨p, rfl, expecting, rfl, stack⟩
  | @snoc ts us n ns comma _ item separator ih =>
    obtain ⟨q, ran, still, same, top⟩ := ih
    obtain ⟨r, ranItem, sameItem, ends⟩ := bracketing.step_item item still top
    have notOperator := ofToken?_eq_none (.inl separator)
    have stepped := (ends comma (by simp [separator]) notOperator).trans
      (bracketing.comma r ns n outer comma separator)
    refine ⟨⟨r.statements, frame (ns ++ [n]) :: outer, .operand⟩, ?_, .inr (.inl rfl),
      sameItem.trans same, rfl⟩
    rw [List.append_assoc, run_append_of_ok _ ran, run_append_of_ok _ ranItem,
      run_cons_of_ok [] stepped]
    rfl

theorem run_items (bracketing : Bracketing frame close node callable) {ts : List Token}
    {ns : List Node} (items : Items (Completes 0) ts ns) {r : Token} (closer : r.kind = close)
    (p : Parser) : (p.push (frame []) .item).run (ts ++ [r]) =
      .ok ⟨p.statements, p.frames, .operator (node ns r) callable⟩ := by
  cases items with
  | nil =>
    rw [List.nil_append, run_cons_of_ok [] (bracketing.empty p r closer)]
    rfl
  | @snoc ts us n ns leading item =>
    obtain ⟨q, ran, still, same, top⟩ :=
      bracketing.run_leading leading (p := p.push (frame []) .item) (.inr (.inr rfl)) rfl
    obtain ⟨s, ranItem, sameItem, ends⟩ := bracketing.step_item item still top
    have kind : r.kind = .rightParen ∨ r.kind = .rightSquare := closer ▸ bracketing.ends
    have notOperator := ofToken?_eq_none (t := r) (by rcases kind with kind | kind <;> simp [kind])
    have notOpener : r.kind ≠ .leftParen := by rcases kind with kind | kind <;> simp [kind]
    have stepped := (ends r notOpener notOperator).trans (bracketing.finish s ns n _ r closer)
    rw [List.append_assoc, run_append_of_ok _ ran, run_append_of_ok _ ranItem,
      run_cons_of_ok [] stepped]
    simp [sameItem, same, push]

end Bracketing

theorem Completes.group {l r : Token} {ts : List Token} {n : Node} (opener : l.kind = .leftParen)
    (inner : Completes 0 ts n) (closer : r.kind = .rightParen) :
    Completes 8 (l :: ts ++ [r]) n := by
  intro p expecting _
  obtain ⟨frames, x, b, ran, folds, -⟩ := inner.behind p .group (by simp [Frame.demand])
  have opened : p.step l = .ok (p.push .group .operand) := by
    rw [step_eq_startOperand expecting (by simp [opener])]
    simp [startOperand, opener]
  have closed := step_eq_endPart
    (p := ⟨p.statements, frames ++ .group :: p.frames, .operator x b⟩) rfl rfl folds
    (by simp [Frame.bracket?]) (by simp [closer]) (ofToken?_eq_none (.inr (.inl closer)))
  refine ⟨[], n, true, ?_, .nil, by simp, fun _ => rfl⟩
  rw [List.cons_append, run_cons_of_ok _ opened, run_append_of_ok _ ran, run_cons, closed]
  simp [endPart, closer, bind, Except.bind]

theorem Completes.list {l r : Token} {ts : List Token} {ns : List Node}
    (opener : l.kind = .leftSquare) (items : Items (Completes 0) ts ns)
    (closer : r.kind = .rightSquare) : Completes 8 (l :: ts ++ [r]) (.enumerate l ns r) := by
  intro p expecting _
  have opened : p.step l = .ok (p.push (.list l []) .item) := by
    rw [step_eq_startOperand expecting (by simp [opener])]
    simp [startOperand, opener]
  refine ⟨[], _, true, ?_, .nil, by simp, fun _ => rfl⟩
  rw [List.cons_append, run_cons_of_ok _ opened,
    (bracketing_list l).run_items items closer p]
  rfl

/-- An atom leaves no frame, since none binds that tightly. -/
theorem Completes.frames_eq_nil {k : Nat} {frames : List Frame} {x n : Node} (tight : 7 ≤ k)
    (folds : Folds frames x n) (ranks : ∀ f ∈ frames, k ≤ f.rank) : frames = [] := by
  apply List.eq_nil_iff_forall_not_mem.mpr
  intro f member
  have low := (folds.closed f member).2
  have high := ranks f member
  omega

theorem Completes.call {l r : Token} {us ts : List Token} {callee : Node} {args : List Node}
    (atom : Completes 8 us callee) (opener : l.kind = .leftParen)
    (items : Items (Completes 0) ts args) (closer : r.kind = .rightParen) :
    Completes 7 (us ++ (l :: ts ++ [r])) (.invoke callee args r) := by
  intro p expecting admits
  obtain ⟨frames, x, b, ran, folds, ranks, callable⟩ :=
    atom p expecting fun f head => Nat.le_trans (admits f head) (by omega)
  obtain rfl := frames_eq_nil (by omega) folds ranks
  cases folds
  obtain rfl := callable (by omega)
  let q : Parser := ⟨p.statements, p.frames, .operator callee true⟩
  have opened : q.step l = .ok (q.push (.call callee []) .item) := by
    simp [q, step, afterOperand, opener]
  refine ⟨[], _, false, ?_, .nil, by simp, by omega⟩
  rw [run_append_of_ok (q := q) _ ran, List.cons_append, run_cons_of_ok _ opened,
    (bracketing_call callee).run_items items closer q]
  rfl

theorem Completes.binary {op : Token} {level : Level} {us ts : List Token} {left right : Node}
    (operator : Level.ofToken? op = some level) (first : Completes level.before us left)
    (second : Completes level.behind ts right) :
    Completes level.result (us ++ op :: ts) (.combine left op right) := by
  intro p expecting admits
  have tighter : level.result ≤ level.before ∧ level.result ≤ level.behind := by
    cases level <;> decide
  obtain ⟨frames, x, b, ran, folds, ranks, -⟩ :=
    first p expecting fun f head => Nat.le_trans (admits f head) tighter.1
  have notOpener : op.kind ≠ .leftParen := by
    intro kind
    simp [Level.ofToken?, kind] at operator
  have reduced : reduceWhile (·.yieldsTo level) x (frames ++ p.frames) = (left, p.frames) := by
    apply folds.reduceWhile_eq
    · intro f member
      exact (Frame.yieldsTo_iff_before_le_rank (folds.closed f member).1).mpr (ranks f member)
    · intro f head
      exact Or.inl (Frame.yieldsTo_eq_false_iff.mpr (admits f head))
  have stepped : (⟨p.statements, frames ++ p.frames, .operator x b⟩ : Parser).step op =
      .ok (p.push (.binary level left op) .operand) := by
    simp [step, afterOperand, notOpener, operator, reduced, push]
  obtain ⟨more, y, c, ranSecond, foldsSecond, ranksSecond⟩ :=
    second.behind p (.binary level left op) (Nat.le_refl _)
  refine ⟨more ++ [.binary level left op], y, c, ?_, foldsSecond.snoc rfl, ?_, ?_⟩
  · rw [run_append_of_ok _ ran, run_cons_of_ok _ stepped, ranSecond]
    simp
  · intro f member
    rcases List.mem_append.mp member with member | member
    · exact Nat.le_trans tighter.2 (ranksSecond f member)
    · simp [List.mem_singleton.mp member, Frame.rank]
  · cases level <;> simp [Level.result]

theorem Completes.assignment {word name equals : Token} {ts : List Token} {n : Node}
    (isLet : word.isLet) (isName : name.kind = .identifier) (sign : equals.kind = .equal)
    (value : Completes 0 ts n) : Completes 0 (word :: name :: equals :: ts) (.bind name n) := by
  intro p expecting admits
  have admitted : p.frames.head?.all Frame.admitsAssignment := by
    rw [Option.all_eq_true]
    intro f head
    exact Frame.admitsAssignment_iff.mpr (Nat.le_zero.mp (admits f head))
  have named : p.step word = .ok (p.look .name) := by
    rw [step_eq_startOperand expecting (by simp [isLet.1])]
    simp [startOperand, isLet.1, isLet.2, admitted]
  obtain ⟨frames, x, b, ran, folds, ranks⟩ := value.behind p (.assign name) (Nat.le_refl 0)
  refine ⟨frames ++ [.assign name], x, b, ?_, folds.snoc rfl, by simp, by omega⟩
  rw [run_cons_of_ok _ named, run_cons_of_ok (q := p.look (.equals name)) _
    (by simp [step, look, isName]), run_cons_of_ok (q := p.push (.assign name) .operand) _
    (by simp [step, look, push, sign]), ran]
  simp

theorem Completes.weaken {i k : Nat} {ts : List Token} {n : Node} (looser : i ≤ k)
    (part : Completes k ts n) : Completes i ts n := by
  intro p expecting admits
  obtain ⟨frames, x, b, ran, folds, ranks, callable⟩ :=
    part p expecting fun f head => Nat.le_trans (admits f head) looser
  exact ⟨frames, x, b, ran, folds, fun f member => Nat.le_trans looser (ranks f member),
    fun tight => callable (Nat.le_trans tight looser)⟩

/-- Whatever can be read is read by the parser. -/
theorem Completes.of_reads {k : Nat} {ts : List Token} {n : Node} (reads : Reads k ts n) :
    Completes k ts n := by
  induction reads with
  | number kind => exact .single (by simp [startOperand, kind]) (by simp [kind])
  | string kind => exact .single (by simp [startOperand, kind]) (by simp [kind])
  | identifier kind => exact .single (by simp [startOperand, kind]) (by simp [kind])
  | group opener _ closer ih => exact .group opener ih closer
  | list opener items closer => exact .list opener (items.mono fun _ _ h => h.2) closer
  | call _ opener items closer ih => exact .call ih opener (items.mono fun _ _ h => h.2) closer
  | @sign op _ _ kind _ ih =>
    refine .unary (.sign op) ?_ ?_ rfl rfl rfl (by omega) ih
    · intro p _
      rcases kind with kind | kind <;> simp [startOperand, kind]
    · rcases kind with kind | kind <;> simp [kind]
  | binary operator _ _ first second => exact .binary operator first second
  | @negation op _ _ kind _ ih =>
    refine .unary (.negate op) ?_ (by simp [kind]) rfl rfl rfl (by omega) ih
    intro p admits
    -- The frame around a negation waits for something loose enough to be one.
    have admitted : p.frames.head?.all Frame.admitsNegation := by
      rw [Option.all_eq_true]
      intro f head
      exact Frame.admitsNegation_iff.mpr (admits f head)
    simp [startOperand, kind, admitted]
  | assignment isLet isName sign _ ih => exact .assignment isLet isName sign ih
  | weaken looser _ ih => exact .weaken looser ih

/-- A sequence of statements leads from the start to the parser that has just read them. -/
theorem run_statements {ts : List Token} {body : List Node}
    (statements : Statements (Reads 0) ts body) :
    initial.run ts = .ok ⟨body.reverse, [], .statement⟩ := by
  induction statements with
  | nil => rfl
  | @skip ts body semicolon _ separator ih =>
    have stays : (⟨body.reverse, [], .statement⟩ : Parser).step semicolon =
        .ok ⟨body.reverse, [], .statement⟩ := by
      simp [step, separator]
    rw [run_append_of_ok _ ih, run_cons_of_ok [] stays]
    rfl
  | @snoc ts us n body semicolon _ statement separator ih =>
    obtain ⟨frames, x, b, ran, folds, -⟩ :=
      Completes.of_reads statement ⟨body.reverse, [], .statement⟩ (.inl rfl) (by simp)
    have ended := step_eq_endPart
      (p := ⟨body.reverse, frames ++ [], .operator x b⟩) rfl rfl folds (by simp)
      (by simp [separator]) (ofToken?_eq_none (.inr (.inr (.inr separator))))
    rw [List.append_assoc, run_append_of_ok _ ih, run_append_of_ok _ ran, run_cons, ended]
    simp [endPart, separator, bind, Except.bind]

end Parser

theorem parse_eq_of_run {origin : Origin} {p : Parser}
    (ran : Parser.initial.run (TokenStream.ofOrigin origin).tokens = .ok p) :
    parse origin = p.finish origin (TokenStream.ofOrigin origin).ending := by
  unfold Parser.run at ran
  simp [parse, ran, bind, Except.bind]

theorem parse_eq_error_of_run {origin : Origin} {fault : ParseFault}
    (failed : Parser.initial.run (TokenStream.ofOrigin origin).tokens = .error fault) :
    parse origin = .error fault := by
  unfold Parser.run at failed
  simp [parse, failed, bind, Except.bind]

end SceneScript
