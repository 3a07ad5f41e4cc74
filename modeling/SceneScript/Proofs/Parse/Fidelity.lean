import SceneScript.Proofs.Node.Places

/-!
How a tree mirrors its text. Its nodes hold the tokens of the text but for the marks that only give
it its shape; each node reaches over its parts, which follow each other as in the text; and all
places are where they say.
-/

namespace SceneScript

/-- Whether the token is a bracket, a separator or a word of an assignment, which no node holds. -/
def Token.isMark (t : Token) : Bool :=
  match t.kind with
  | .leftParen | .rightParen | .leftSquare | .rightSquare | .comma | .semicolon | .equal => true
  | .keyword => t.value = .string "let"
  | _ => false

def unmarked (ts : List Token) : List Token := ts.filter fun t => !t.isMark

section Unmarked

variable {t : Token} {ts us : List Token}

@[simp] theorem unmarked_nil : unmarked [] = [] := rfl

@[simp] theorem unmarked_append : unmarked (ts ++ us) = unmarked ts ++ unmarked us :=
  List.filter_append ..

theorem unmarked_cons :
    unmarked (t :: ts) = if t.isMark then unmarked ts else t :: unmarked ts := by
  cases mark : t.isMark <;> simp [unmarked, mark]

theorem Level.not_isMark {level : Level} (operator : ofToken? t = some level) :
    t.isMark = false := by
  unfold ofToken? at operator
  unfold Token.isMark
  split at operator
  case h_1 kind =>
    split at operator
    case isTrue word => rcases word with word | word <;> simp [kind, word]
    case isFalse => cases operator
  all_goals simp_all

end Unmarked

namespace Node

mutual

/-- The tokens that the node and its parts hold, from left to right. -/
def tokens : Node → List Token
  | .program body _ => tokensAll body
  | .identifier token _ | .number token _ | .string token _ => [token]
  | .binary left op right _ => tokens left ++ op :: tokens right
  | .unary op operand _ => op :: tokens operand
  | .list elements _ => tokensAll elements
  | .call callee args _ => tokens callee ++ tokensAll args
  | .assign name value _ => name :: tokens value
  | .blank .. => []

def tokensAll : List Node → List Token
  | [] => []
  | node :: nodes => tokens node ++ tokensAll nodes

end

@[simp] theorem tokensAll_snoc (nodes : List Node) (node : Node) :
    tokensAll (nodes ++ [node]) = tokensAll nodes ++ node.tokens := by
  induction nodes with
  | nil => simp [tokensAll]
  | cons first nodes ih => simp [tokensAll, ih]

/-- The spans of the tokens and of the nodes that the node itself consists of, from left to
    right. -/
def pieces : Node → List Span
  | .program body _ => body.map span
  | .identifier token _ | .number token _ | .string token _ => [token.span]
  | .binary left op right _ => [left.span, op.span, right.span]
  | .unary op operand _ => [op.span, operand.span]
  | .list elements _ => elements.map span
  | .call callee args _ => callee.span :: args.map span
  | .assign name value _ => [name.span, value.span]
  | .blank .. => []

end Node

section Tokens

variable {R : List Token → Node → Prop} {ts : List Token} {ns : List Node}

def Retains (R : List Token → Node → Prop) : Prop := ∀ us n, R us n → n.tokens = unmarked us

theorem Leading.tokens_eq (retains : Retains R) (leading : Leading R ts ns) :
    Node.tokensAll ns = unmarked ts := by
  induction leading with
  | nil => rfl
  | snoc _ item separator ih =>
    simp [unmarked_cons, Token.isMark, separator, ih, retains _ _ item]

theorem Items.tokens_eq (retains : Retains R) (items : Items R ts ns) :
    Node.tokensAll ns = unmarked ts := by
  cases items with
  | nil => rfl
  | snoc leading item => simp [leading.tokens_eq retains, retains _ _ item]

theorem Statements.tokens_eq (retains : Retains R) (statements : Statements R ts ns) :
    Node.tokensAll ns = unmarked ts := by
  induction statements with
  | nil => rfl
  | skip _ separator ih => simp [unmarked_cons, Token.isMark, separator, ih]
  | snoc _ statement separator ih =>
    simp [unmarked_cons, Token.isMark, separator, ih, retains _ _ statement]

open Node in
theorem Reads.tokens_eq {k : Nat} {n : Node} (reads : Reads k ts n) : n.tokens = unmarked ts := by
  induction reads with
  | number kind => simp [ofNumber, tokens, unmarked_cons, Token.isMark, kind]
  | string kind => simp [ofString, tokens, unmarked_cons, Token.isMark, kind]
  | identifier kind => simp [ofIdentifier, tokens, unmarked_cons, Token.isMark, kind]
  | group opener _ closer ih => simp [unmarked_cons, Token.isMark, opener, closer, ih]
  | list opener items closer =>
    have elements := items.tokens_eq fun _ _ item => item.2
    simp [enumerate, tokens, unmarked_cons, Token.isMark, opener, closer, elements]
  | call _ opener items closer ih =>
    have args := items.tokens_eq fun _ _ item => item.2
    simp [invoke, tokens, unmarked_cons, Token.isMark, opener, closer, ih, args]
  | sign kind _ ih =>
    rcases kind with kind | kind <;> simp [apply, tokens, unmarked_cons, Token.isMark, kind, ih]
  | binary operator _ _ first second =>
    simp [combine, tokens, unmarked_cons, Level.not_isMark operator, first, second]
  | negation kind _ ih => simp [apply, tokens, unmarked_cons, Token.isMark, kind, ih]
  | assignment word isName sign _ ih =>
    simp [Node.bind, tokens, unmarked_cons, Token.isMark, word.1, word.2, isName, sign, ih]
  | weaken _ _ ih => exact ih

end Tokens

section Parts

variable {k : Nat} {ts us : List Token} {n part : Node}

def ReadAmong (ts : List Token) (node : Node) : Prop := ∃ k us, us <:+: ts ∧ Reads k us node

theorem Reads.among (reads : Reads k ts n) : ReadAmong ts n := ⟨k, ts, List.infix_rfl, reads⟩

theorem ReadAmong.mono (among : ReadAmong us n) (within : us <:+: ts) : ReadAmong ts n := by
  obtain ⟨k, vs, stretch, reads⟩ := among
  exact ⟨k, vs, stretch.trans within, reads⟩

theorem Items.among {ns : List Node} {R : List Token → Node → Prop} (items : Items R ts ns)
    (parts : ∀ us n, R us n → part ∈ n.order → ReadAmong us part)
    (inside : part ∈ Node.orderAll ns) : ReadAmong ts part := by
  obtain ⟨n, member, inner⟩ := Node.exists_of_mem_orderAll inside
  obtain ⟨us, within, item⟩ := items.exists_of_mem member
  exact (parts us n item inner).mono within

open Node in
/-- Each part of what is read is itself read from a stretch of the tokens. -/
theorem Reads.among_of_mem_order (reads : Reads k ts n) (inside : part ∈ n.order) :
    ReadAmong ts part := by
  induction reads with
  | number kind =>
    rw [List.mem_singleton.mp inside]
    exact (Reads.number kind).among
  | string kind =>
    rw [List.mem_singleton.mp inside]
    exact (Reads.string kind).among
  | identifier kind =>
    rw [List.mem_singleton.mp inside]
    exact (Reads.identifier kind).among
  | @group l r _ _ _ _ _ ih => exact (ih inside).mono ⟨[l], [r], rfl⟩
  | @list l r _ _ opener items closer =>
    rw [enumerate, order, List.mem_append, List.mem_singleton] at inside
    rcases inside with deeper | rfl
    · exact (items.among (fun _ _ item => item.2) deeper).mono ⟨[l], [r], rfl⟩
    · exact (Reads.list opener (items.mono fun _ _ item => item.1) closer).among
  | @call l r us _ _ _ atom opener items closer ih =>
    rw [invoke, order, List.mem_append, List.mem_append, List.mem_singleton] at inside
    rcases inside with (deeper | deeper) | rfl
    · exact (ih deeper).mono ⟨[], _, rfl⟩
    · exact (items.among (fun _ _ item => item.2) deeper).mono ⟨us ++ [l], [r], by simp⟩
    · exact (Reads.call atom opener (items.mono fun _ _ item => item.1) closer).among
  | @sign op _ _ kind operand ih =>
    rw [apply, order, List.mem_append, List.mem_singleton] at inside
    rcases inside with deeper | rfl
    · exact (ih deeper).mono ⟨[op], [], by simp⟩
    · exact (Reads.sign kind operand).among
  | @binary op _ us _ _ _ operator first second ihFirst ihSecond =>
    rw [combine, order, List.mem_append, List.mem_append, List.mem_singleton] at inside
    rcases inside with (deeper | deeper) | rfl
    · exact (ihFirst deeper).mono ⟨[], _, rfl⟩
    · exact (ihSecond deeper).mono ⟨us ++ [op], [], by simp⟩
    · exact (Reads.binary operator first second).among
  | @negation op _ _ kind operand ih =>
    rw [apply, order, List.mem_append, List.mem_singleton] at inside
    rcases inside with deeper | rfl
    · exact (ih deeper).mono ⟨[op], [], by simp⟩
    · exact (Reads.negation kind operand).among
  | @assignment word name equals _ _ isLet isName sign value ih =>
    rw [Node.bind, order, List.mem_append, List.mem_singleton] at inside
    rcases inside with deeper | rfl
    · exact (ih deeper).mono ⟨[word, name, equals], [], by simp⟩
    · exact (Reads.assignment isLet isName sign value).among
  | weaken _ _ ih => exact ih inside

end Parts

/-- The spans follow each other between two indices, and none of them is empty. -/
def Span.Ordered (lo hi : Nat) : List Span → Prop
  | [] => lo ≤ hi
  | s :: ss => ∃ a b, lo ≤ a ∧ s.Covers a b ∧ Ordered b hi ss

namespace Node

/-- The node reaches over its pieces, which follow each other. -/
def Framed (node : Node) : Prop := ∃ a b, node.span.Covers a b ∧ Span.Ordered a b node.pieces

theorem PlacedAll.ordered {nodes : List Node} {lo hi : Nat} (placed : PlacedAll nodes lo hi) :
    Span.Ordered lo hi (nodes.map span) := by
  induction nodes generalizing lo with
  | nil => exact placed
  | cons node nodes ih =>
    obtain ⟨a, b, after, first, others⟩ := placed
    exact ⟨a, b, after, first.covers, ih others⟩

/-- Nodes that follow another one need no more room than up to the end of the last. -/
theorem PlacedAll.reach {first : Node} {rest : List Node} {a b hi : Nat}
    (covers : first.span.Covers a b) (placed : PlacedAll rest b hi) :
    ∃ c d, b ≤ d ∧ (rest.getLastD first).span.Covers c d ∧
      Span.Ordered b d (rest.map span) := by
  -- The second node takes the place of the first, and the others follow it.
  induction rest generalizing first a b with
  | nil => exact ⟨a, b, Nat.le_refl b, covers, Nat.le_refl b⟩
  | cons second rest ih =>
    obtain ⟨s, t, after, there, others⟩ := placed
    obtain ⟨c, d, behind, last, ordered⟩ := ih there.covers others
    rw [List.getLastD_cons]
    have below : b ≤ d := Nat.le_trans after (Nat.le_trans there.le behind)
    exact ⟨c, d, below, last, s, t, after, there.covers, ordered⟩

theorem PlacedAll.framed {first : Node} {rest : List Node} {lo hi : Nat}
    (placed : PlacedAll (first :: rest) lo hi) :
    (program (first :: rest) (bodySpan (first :: rest))).Framed := by
  obtain ⟨a, b, -, there, others⟩ := placed
  obtain ⟨c, d, behind, last, ordered⟩ := others.reach there.covers
  have reach : a < d := Nat.lt_of_lt_of_le there.covers.lt behind
  exact ⟨a, d, there.covers.join last reach, a, b, Nat.le_refl a, there.covers, ordered⟩

end Node

theorem Laid.stretch {lo hi : Nat} {us ts : List Token} (laid : Laid lo hi ts)
    (within : us <:+: ts) : ∃ a b, Laid a b us := by
  obtain ⟨front, back, rfl⟩ := within
  obtain ⟨b, before, -⟩ := append_iff.mp laid
  obtain ⟨a, -, own⟩ := append_iff.mp before
  exact ⟨a, b, own⟩

theorem Reads.framed {k : Nat} {ts : List Token} {n : Node} (reads : Reads k ts n) {lo hi : Nat}
    (laid : Laid lo hi ts) : n.Framed := by
  induction reads generalizing lo hi with
  | number | string | identifier =>
    obtain ⟨a, b, -, covers, -⟩ := laid
    exact ⟨a, b, covers, a, b, Nat.le_refl a, covers, Nat.le_refl b⟩
  | group _ _ _ ih =>
    obtain ⟨_, _, _, _, -, -, inner, -, -⟩ := laid.enclosed
    exact ih inner
  -- A list and a call hold no token of their own, so that the layout of their parts is all of it.
  | list opener parts closer =>
    have whole := Reads.list opener (parts.mono fun _ _ item => item.1) closer
    obtain ⟨a, b, -, ⟨covers, elements⟩, -⟩ := whole.within lo hi laid
    exact ⟨a, b, covers, elements.ordered⟩
  | call atom opener parts closer =>
    have whole := Reads.call atom opener (parts.mono fun _ _ item => item.1) closer
    obtain ⟨a, b, -, ⟨covers, c, callee, args⟩, -⟩ := whole.within lo hi laid
    exact ⟨a, b, covers, a, c, Nat.le_refl a, callee.covers, args.ordered⟩
  | sign _ operand | negation _ operand =>
    obtain ⟨a, b, -, op, rest⟩ := laid
    obtain ⟨c, d, after, placed, -⟩ := operand.within b hi rest
    have reach : a < d := Nat.lt_of_lt_of_le op.lt (Nat.le_trans after placed.le)
    exact ⟨a, d, op.join placed.covers reach, a, b, Nat.le_refl a, op, c, d, after, placed.covers,
      Nat.le_refl d⟩
  | binary _ first second =>
    obtain ⟨mid, front, s, t, between, op, rest⟩ := Laid.append_iff.mp laid
    obtain ⟨a, b, -, left, above⟩ := first.within lo mid front
    obtain ⟨c, d, below, right, -⟩ := second.within t hi rest
    have before : b ≤ s := Nat.le_trans above between
    have reach : a < d := by
      have ordered := op.lt
      have start := left.covers.lt
      have stop := right.covers.lt
      omega
    exact ⟨a, d, left.covers.join right.covers reach, a, b, Nat.le_refl a, left.covers, s, t,
      before, op, c, d, below, right.covers, Nat.le_refl d⟩
  | assignment _ _ _ value =>
    obtain ⟨_, _, -, -, a, b, -, name, _, f, further, equals, rest⟩ := laid
    obtain ⟨c, d, below, placed, -⟩ := value.within f hi rest
    have after : b ≤ c := Nat.le_trans further (Nat.le_trans equals.le below)
    have reach : a < d := Nat.lt_of_lt_of_le name.lt (Nat.le_trans after placed.le)
    exact ⟨a, d, name.join placed.covers reach, a, b, Nat.le_refl a, name, c, d, after,
      placed.covers, Nat.le_refl d⟩
  | weaken _ _ ih => exact ih laid

theorem Origin.Has.exists_index {origin : Origin} {place : Place} (has : origin.Has place) :
    ∃ index ≤ origin.text.length, place = Position.ofIndex origin index := by
  obtain ⟨front, back, text, rfl⟩ := has
  have taken : origin.text.toList.take front.length = front := by
    rw [text, List.take_left]
  have within : front.length ≤ origin.text.length := by
    rw [← String.length_toList, text, List.length_append]
    exact Nat.le_add_right _ _
  refine ⟨front.length, within, ?_⟩
  rw [Position.walk_start, Position.ofIndex, taken]

namespace FrontEnd

variable {f : FrontEnd} {origin : Origin} {p : Program}

theorem tokens_of_parse (parsed : f.parse origin = .ok p) :
    p.toNode.tokens = unmarked (TokenStream.ofOrigin origin).tokens := by
  obtain ⟨ls, body, stream, statements, rfl⟩ := f.parse_eq_ok parsed
  obtain ⟨stop, scanned⟩ := tokens_finished_iff.mpr ⟨ls, stream, rfl⟩
  rw [scanned, ← statements.tokens_eq fun _ _ reads => reads.tokens_eq, Program.toNode, Node.tokens,
    Program.body_ofBody]

theorem framed_of_parse (parsed : f.parse origin = .ok p) {node : Node}
    (inside : node ∈ p.toNode.order) (full : ∀ span, node ≠ .program [] span) : node.Framed := by
  have placed := f.placedAll_of_parse parsed
  obtain ⟨ls, body, stream, statements, rfl⟩ := f.parse_eq_ok parsed
  have laid := (laid_ofOrigin origin).1
  rw [stream] at laid
  rw [Program.body_ofBody] at placed
  rw [Program.toNode, Node.order, List.mem_append, List.mem_singleton,
    Program.body_ofBody] at inside
  rcases inside with inner | rfl
  · obtain ⟨n, member, deeper⟩ := Node.exists_of_mem_orderAll inner
    obtain ⟨us, within, whole⟩ := statements.exists_of_mem member
    obtain ⟨i, vs, stretch, reads⟩ := (whole.among_of_mem_order deeper).mono within
    obtain ⟨a, b, own⟩ := laid.stretch stretch
    exact reads.framed own
  · cases body with
    | nil => exact absurd rfl (full _)
    | cons first rest => exact placed.framed

/-- The nodes of a parsed program hold, from left to right, all the tokens of the text but its
    marks. Each node but an empty program takes up room and reaches over its tokens and its
    parts, which follow each other; and all places are where they say in the text. -/
theorem tree_mirrors_text (parsed : f.parse origin = .ok p) :
    p.toNode.tokens = unmarked (TokenStream.ofOrigin origin).tokens ∧
    (∀ node ∈ p.toNode.order, (∀ span, node ≠ .program [] span) → node.Framed) ∧
    p.toNode.Located fun place =>
      ∃ index ≤ origin.text.length, place = Position.ofIndex origin index :=
  ⟨f.tokens_of_parse parsed, fun _ inside full => f.framed_of_parse parsed inside full,
    (f.located_of_parse parsed).mono fun _ has => has.exists_index⟩

theorem spread_call_mirrors_text : ∃ p,
    precedence.parse ⟨"spread", "let x = (f)(-1,\n [2, 'a']) ^ 3;"⟩ = .ok p ∧
    p.toNode.tokens.map (·.kind) =
      [.identifier, .identifier, .minus, .number, .number, .string, .power, .number] ∧
    ∀ node ∈ p.toNode.order, (∀ span, node ≠ .program [] span) → node.Framed := by
  obtain ⟨p, parsed⟩ : ∃ p,
      precedence.parse ⟨"spread", "let x = (f)(-1,\n [2, 'a']) ^ 3;"⟩ = .ok p :=
    exists_of_toBool (by decide +kernel)
  obtain ⟨held, framed, -⟩ := tree_mirrors_text parsed
  refine ⟨p, parsed, ?_, framed⟩
  rw [held]
  decide +kernel

end FrontEnd

end SceneScript
