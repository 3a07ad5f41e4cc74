import SceneScript.Proofs.Parse.Shape

/-!
Where the parts of a program stand. Tokens follow each other in the text, and the parts of a node
follow each other inside it.
-/

namespace SceneScript

/-- The span reaches from one index to a later one. -/
def Span.Covers (s : Span) (a b : Nat) : Prop :=
  ∃ start stop : Position, s = ⟨start, stop⟩ ∧ start.index = a ∧ stop.index = b ∧ a < b

theorem Span.Covers.join {s t : Span} {a b c d : Nat} (first : s.Covers a b) (last : t.Covers c d)
    (ordered : a < d) : (s.join t).Covers a d := by
  obtain ⟨start, _, rfl, rfl, -, -⟩ := first
  obtain ⟨_, stop, rfl, -, rfl, -⟩ := last
  exact ⟨start, stop, rfl, rfl, rfl, ordered⟩

theorem Span.Covers.lt {s : Span} {a b : Nat} (covers : s.Covers a b) : a < b := by
  obtain ⟨_, _, -, -, -, ordered⟩ := covers
  exact ordered

theorem Span.Covers.le {s : Span} {a b : Nat} (covers : s.Covers a b) : a ≤ b :=
  Nat.le_of_lt covers.lt

/-- The tokens follow each other between two indices. -/
def Laid (lo hi : Nat) : List Token → Prop
  | [] => lo ≤ hi
  | t :: ts => ∃ a b, lo ≤ a ∧ t.span.Covers a b ∧ Laid b hi ts

namespace Laid

variable {lo hi : Nat} {ts us : List Token} {t : Token}

theorem le (laid : Laid lo hi ts) : lo ≤ hi := by
  induction ts generalizing lo with
  | nil => exact laid
  | cons t ts ih =>
    obtain ⟨a, b, after, covers, others⟩ := laid
    have ordered := covers.le
    have later := ih others
    omega

theorem weaken {lower : Nat} (laid : Laid lo hi ts) (before : lower ≤ lo) : Laid lower hi ts := by
  cases ts with
  | nil => exact Nat.le_trans before laid
  | cons t ts =>
    obtain ⟨a, b, after, covers, others⟩ := laid
    exact ⟨a, b, Nat.le_trans before after, covers, others⟩

theorem mono {higher : Nat} (laid : Laid lo hi ts) (after : hi ≤ higher) : Laid lo higher ts := by
  induction ts generalizing lo with
  | nil => exact Nat.le_trans laid after
  | cons t ts ih =>
    obtain ⟨a, b, low, covers, others⟩ := laid
    exact ⟨a, b, low, covers, ih others⟩

theorem append_iff : Laid lo hi (ts ++ us) ↔ ∃ mid, Laid lo mid ts ∧ Laid mid hi us := by
  induction ts generalizing lo with
  | nil =>
    constructor
    · exact fun laid => ⟨lo, Nat.le_refl lo, laid⟩
    · exact fun ⟨mid, before, laid⟩ => laid.weaken before
  | cons t ts ih =>
    constructor
    · rintro ⟨a, b, after, covers, others⟩
      obtain ⟨mid, first, second⟩ := ih.mp others
      exact ⟨mid, ⟨a, b, after, covers, first⟩, second⟩
    · rintro ⟨mid, ⟨a, b, after, covers, first⟩, second⟩
      exact ⟨a, b, after, covers, ih.mpr ⟨mid, first, second⟩⟩

theorem enclosed {opener closer : Token} (laid : Laid lo hi (opener :: ts ++ [closer])) :
    ∃ a b c d, lo ≤ a ∧ opener.span.Covers a b ∧ Laid b c ts ∧ closer.span.Covers c d ∧
      d ≤ hi := by
  obtain ⟨a, b, low, first, rest⟩ := laid
  obtain ⟨mid, inner, c, d, after, last, high⟩ := append_iff.mp rest
  exact ⟨a, b, c, d, low, first, inner.mono after, last, high⟩

end Laid

open Grammar.LexemeStream (ofCharsAt found) in
/-- The lexemes of a text follow each other, and a fault is at one of its characters. -/
theorem laid_ofCharsAt (lines : LineIndex) (index : Nat) (cs : List Char) :
    Laid index (index + cs.length) ((ofCharsAt index cs).lexemes.map (·.toToken lines)) ∧
      ∀ i c, (ofCharsAt index cs).fault = some (i, c) → i < index + cs.length := by
  match cs with
  | [] =>
    rw [ofCharsAt]
    exact ⟨Nat.le_refl _, by simp⟩
  | c :: cs =>
    have shorter (extent : Nat) : (cs.drop extent).length < (c :: cs).length := by
      simp only [List.length_drop, List.length_cons]
      omega
    have length {extent : Nat} (within : extent ≤ cs.length) :
        index + extent + 1 + (cs.drop extent).length = index + (c :: cs).length := by
      simp only [List.length_drop, List.length_cons]
      omega
    cases found c cs with
    | missed nothing =>
      rw [Grammar.LexemeStream.ofCharsAt_missed nothing]
      refine ⟨Nat.le_add_right _ _, fun i d fault => ?_⟩
      cases fault
      simp
    | @dropped pattern extent first within terminal =>
      have following := laid_ofCharsAt lines (index + extent + 1) (cs.drop extent)
      rw [length within] at following
      rw [Grammar.LexemeStream.ofCharsAt_dropped first terminal]
      exact ⟨following.1.weaken (by omega), following.2⟩
    | @kept pattern extent w first within terminal =>
      have following := laid_ofCharsAt lines (index + extent + 1) (cs.drop extent)
      rw [length within] at following
      rw [Grammar.LexemeStream.ofCharsAt_kept first terminal]
      refine ⟨⟨index, index + extent + 1, Nat.le_refl _, ?_, following.1⟩, following.2⟩
      exact ⟨lines.position index, lines.position (index + extent + 1), rfl, rfl, rfl, by omega⟩
termination_by cs.length

theorem laid_ofOrigin (origin : Origin) :
    Laid 0 origin.text.length
      ((Grammar.LexemeStream.ofOrigin origin).lexemes.map (·.toToken (.ofOrigin origin))) ∧
      ∀ i c, (Grammar.LexemeStream.ofOrigin origin).fault = some (i, c) →
        i < origin.text.length := by
  have laid := laid_ofCharsAt (.ofOrigin origin) 0 origin.text.toList
  rwa [Nat.zero_add, String.length_toList] at laid

namespace Node

mutual

/-- The node reaches from one index to another, with its parts in their order in between. -/
def Placed : Node → Nat → Nat → Prop
  | .identifier _ span, lo, hi | .number _ span, lo, hi | .string _ span, lo, hi =>
    span.Covers lo hi
  | .binary left _ right span, lo, hi =>
    span.Covers lo hi ∧ ∃ a b, Placed left lo a ∧ a < b ∧ Placed right b hi
  | .unary _ operand span, lo, hi => span.Covers lo hi ∧ ∃ a, lo ≤ a ∧ Placed operand a hi
  | .assign _ value span, lo, hi => span.Covers lo hi ∧ ∃ a, lo ≤ a ∧ Placed value a hi
  | .list elements span, lo, hi => span.Covers lo hi ∧ PlacedAll elements lo hi
  | .call callee args span, lo, hi =>
    span.Covers lo hi ∧ ∃ a, Placed callee lo a ∧ PlacedAll args a hi
  | .program .., _, _ | .blank .., _, _ => False

/-- The nodes follow each other between two indices. -/
def PlacedAll : List Node → Nat → Nat → Prop
  | [], lo, hi => lo ≤ hi
  | node :: nodes, lo, hi => ∃ a b, lo ≤ a ∧ Placed node a b ∧ PlacedAll nodes b hi

end

/-- The node is placed somewhere between the indices. -/
def Within (node : Node) (lo hi : Nat) : Prop := ∃ a b, lo ≤ a ∧ node.Placed a b ∧ b ≤ hi

section Placed

variable {node part : Node} {nodes : List Node} {lo hi : Nat}

theorem Placed.covers (placed : node.Placed lo hi) : node.span.Covers lo hi := by
  cases node with
  | identifier | number | string => exact placed
  | binary | unary | assign | list | call => exact placed.1
  | program | blank => exact placed.elim

theorem Placed.le (placed : node.Placed lo hi) : lo ≤ hi := placed.covers.le

theorem PlacedAll.le (placed : PlacedAll nodes lo hi) : lo ≤ hi := by
  induction nodes generalizing lo with
  | nil => exact placed
  | cons node nodes ih =>
    obtain ⟨a, b, after, first, others⟩ := placed
    have ordered := first.le
    have later := ih others
    omega

theorem Within.mono {lower higher : Nat} (within : node.Within lo hi) (before : lower ≤ lo)
    (after : hi ≤ higher) : node.Within lower higher := by
  obtain ⟨a, b, low, placed, high⟩ := within
  exact ⟨a, b, Nat.le_trans before low, placed, Nat.le_trans high after⟩

theorem PlacedAll.mono {higher : Nat} (placed : PlacedAll nodes lo hi) (after : hi ≤ higher) :
    PlacedAll nodes lo higher := by
  induction nodes generalizing lo with
  | nil => exact Nat.le_trans placed after
  | cons node nodes ih =>
    obtain ⟨a, b, low, first, others⟩ := placed
    exact ⟨a, b, low, first, ih others⟩

theorem PlacedAll.weaken {lower : Nat} (placed : PlacedAll nodes lo hi) (before : lower ≤ lo) :
    PlacedAll nodes lower hi := by
  cases nodes with
  | nil => exact Nat.le_trans before placed
  | cons node nodes =>
    obtain ⟨a, b, low, first, others⟩ := placed
    exact ⟨a, b, Nat.le_trans before low, first, others⟩

theorem PlacedAll.snoc {mid : Nat} (placed : PlacedAll nodes lo mid) (last : node.Within mid hi) :
    PlacedAll (nodes ++ [node]) lo hi := by
  induction nodes generalizing lo with
  | nil =>
    obtain ⟨a, b, low, there, high⟩ := last
    exact ⟨a, b, Nat.le_trans placed low, there, high⟩
  | cons first nodes ih =>
    obtain ⟨a, b, after, there, others⟩ := placed
    exact ⟨a, b, after, there, ih others⟩

mutual

/-- The parts of a node lie within it. -/
theorem Placed.within : ∀ {node : Node} {lo hi : Nat}, node.Placed lo hi → part ∈ node.order →
    part.Within lo hi
  | .identifier _ _, lo, hi, placed, inside | .number _ _, lo, hi, placed, inside
  | .string _ _, lo, hi, placed, inside => by
    rw [List.mem_singleton.mp inside]
    exact ⟨lo, hi, Nat.le_refl _, placed, Nat.le_refl _⟩
  | .binary left op right span, lo, hi, placed, inside => by
    have whole := placed
    obtain ⟨-, a, b, first, between, second⟩ := placed
    rw [order, List.mem_append, List.mem_append, List.mem_singleton] at inside
    rcases inside with (inner | inner) | rfl
    · have behind : a ≤ hi := Nat.le_trans (Nat.le_of_lt between) second.le
      exact (first.within inner).mono (Nat.le_refl _) behind
    · have before : lo ≤ b := Nat.le_trans first.le (Nat.le_of_lt between)
      exact (second.within inner).mono before (Nat.le_refl _)
    · exact ⟨lo, hi, Nat.le_refl _, whole, Nat.le_refl _⟩
  | .unary op value span, lo, hi, placed, inside
  | .assign op value span, lo, hi, placed, inside => by
    have whole := placed
    obtain ⟨-, a, after, second⟩ := placed
    rw [order, List.mem_append, List.mem_singleton] at inside
    rcases inside with inner | rfl
    · exact (second.within inner).mono after (Nat.le_refl _)
    · exact ⟨lo, hi, Nat.le_refl _, whole, Nat.le_refl _⟩
  | .list elements span, lo, hi, placed, inside => by
    have whole := placed
    rw [order, List.mem_append, List.mem_singleton] at inside
    rcases inside with inner | rfl
    · exact placed.2.within inner
    · exact ⟨lo, hi, Nat.le_refl _, whole, Nat.le_refl _⟩
  | .call callee args span, lo, hi, placed, inside => by
    have whole := placed
    obtain ⟨-, a, first, others⟩ := placed
    rw [order, List.mem_append, List.mem_append, List.mem_singleton] at inside
    rcases inside with (inner | inner) | rfl
    · exact (first.within inner).mono (Nat.le_refl _) others.le
    · exact (others.within inner).mono first.le (Nat.le_refl _)
    · exact ⟨lo, hi, Nat.le_refl _, whole, Nat.le_refl _⟩
  | .program _ _, _, _, placed, _ | .blank _ _, _, _, placed, _ => placed.elim

theorem PlacedAll.within : ∀ {nodes : List Node} {lo hi : Nat}, PlacedAll nodes lo hi →
    part ∈ orderAll nodes → part.Within lo hi
  | [], _, _, _, inside => by cases inside
  | node :: nodes, lo, hi, placed, inside => by
    obtain ⟨a, b, after, first, others⟩ := placed
    rw [orderAll, List.mem_append] at inside
    rcases inside with inner | inner
    · exact (first.within inner).mono after others.le
    · exact (others.within inner).mono (Nat.le_trans after first.le) (Nat.le_refl _)

end

end Placed

end Node

section Reading

variable {R : List Token → Node → Prop} {ts : List Token} {ns : List Node} {lo hi : Nat}

/-- What is read from laid tokens is placed among them. -/
def Locates (R : List Token → Node → Prop) : Prop :=
  ∀ us n, R us n → ∀ lo hi, Laid lo hi us → n.Within lo hi

theorem Leading.placed (locates : Locates R) (leading : Leading R ts ns) (laid : Laid lo hi ts) :
    Node.PlacedAll ns lo hi := by
  induction leading generalizing hi with
  | nil => exact laid
  | snoc _ item _ ih =>
    rw [List.append_assoc] at laid
    obtain ⟨mid, before, rest⟩ := Laid.append_iff.mp laid
    obtain ⟨behind, own, comma⟩ := Laid.append_iff.mp rest
    exact (ih before).snoc ((locates _ _ item _ _ own).mono (Nat.le_refl _) comma.le)

theorem Items.placed (locates : Locates R) (items : Items R ts ns) (laid : Laid lo hi ts) :
    Node.PlacedAll ns lo hi := by
  cases items with
  | nil => exact laid
  | snoc leading item =>
    obtain ⟨mid, first, second⟩ := Laid.append_iff.mp laid
    exact (leading.placed locates first).snoc (locates _ _ item _ _ second)

theorem Statements.placed (locates : Locates R) (statements : Statements R ts ns)
    (laid : Laid lo hi ts) : Node.PlacedAll ns lo hi := by
  induction statements generalizing hi with
  | nil => exact laid
  | skip _ _ ih =>
    obtain ⟨mid, before, semicolon⟩ := Laid.append_iff.mp laid
    exact (ih before).mono semicolon.le
  | snoc _ statement _ ih =>
    rw [List.append_assoc] at laid
    obtain ⟨mid, before, rest⟩ := Laid.append_iff.mp laid
    obtain ⟨behind, own, semicolon⟩ := Laid.append_iff.mp rest
    exact (ih before).snoc ((locates _ _ statement _ _ own).mono (Nat.le_refl _) semicolon.le)

end Reading

open Node in
theorem Reads.within {k : Nat} {ts : List Token} {n : Node} (reads : Reads k ts n) :
    ∀ lo hi, Laid lo hi ts → n.Within lo hi := by
  have items {ts : List Token} {ns : List Node} {lo hi : Nat} (laid : Laid lo hi ts)
      (items : Items (fun us n => ∃ _ : Reads 0 us n, ∀ lo hi, Laid lo hi us → n.Within lo hi)
        ts ns) : PlacedAll ns lo hi := items.placed (fun _ _ item => item.2) laid
  induction reads with
  | number | string | identifier =>
    intro lo hi laid
    exact laid
  | group _ _ _ ih =>
    intro lo hi laid
    obtain ⟨a, b, c, d, low, opener, inner, closer, high⟩ := laid.enclosed
    exact (ih b c inner).mono (Nat.le_trans low opener.le) (Nat.le_trans closer.le high)
  | list _ parts _ =>
    intro lo hi laid
    obtain ⟨a, b, c, d, low, opener, inner, closer, high⟩ := laid.enclosed
    have placed := items inner parts
    have reach : a < d := Nat.lt_of_lt_of_le opener.lt (Nat.le_trans placed.le closer.le)
    exact ⟨a, d, low, ⟨opener.join closer reach,
      (placed.mono closer.le).weaken opener.le⟩, high⟩
  | call _ _ parts _ ih =>
    intro lo hi laid
    obtain ⟨mid, front, back⟩ := Laid.append_iff.mp laid
    obtain ⟨s, t, below, callee, above⟩ := ih lo mid front
    obtain ⟨a, b, c, d, low, opener, inner, closer, high⟩ := back.enclosed
    have before : t ≤ b := Nat.le_trans above (Nat.le_trans low opener.le)
    have placed := ((items inner parts).mono closer.le).weaken before
    have reach : s < d := Nat.lt_of_lt_of_le callee.covers.lt placed.le
    exact ⟨s, d, below, ⟨callee.covers.join closer reach, t, callee, placed⟩, high⟩
  | sign _ _ ih | negation _ _ ih =>
    intro lo hi laid
    obtain ⟨a, b, low, op, rest⟩ := laid
    obtain ⟨c, d, after, operand, high⟩ := ih b hi rest
    have behind : a ≤ c := Nat.le_trans op.le after
    have reach : a < d := Nat.lt_of_le_of_lt behind operand.covers.lt
    exact ⟨a, d, low, ⟨op.join operand.covers reach, c, behind, operand⟩, high⟩
  | binary _ _ _ first second =>
    intro lo hi laid
    obtain ⟨mid, front, a, b, between, op, rest⟩ := Laid.append_iff.mp laid
    obtain ⟨s, t, low, left, above⟩ := first lo mid front
    obtain ⟨u, v, below, right, high⟩ := second b hi rest
    have apart : t < u :=
      Nat.lt_of_le_of_lt (Nat.le_trans above between) (Nat.lt_of_lt_of_le op.lt below)
    have reach : s < v := Nat.lt_trans left.covers.lt (Nat.lt_trans apart right.covers.lt)
    exact ⟨s, v, low, ⟨left.covers.join right.covers reach, t, u, left, apart, right⟩, high⟩
  | assignment _ _ _ _ ih =>
    intro lo hi laid
    obtain ⟨a, b, low, word, c, d, next, name, e, f, further, equals, rest⟩ := laid
    obtain ⟨u, v, after, value, high⟩ := ih f hi rest
    have start : lo ≤ c := Nat.le_trans low (Nat.le_trans word.le next)
    have behind : c ≤ u :=
      Nat.le_trans name.le (Nat.le_trans further (Nat.le_trans equals.le after))
    have reach : c < v := Nat.lt_of_le_of_lt behind value.covers.lt
    exact ⟨c, v, start, ⟨name.join value.covers reach, u, behind, value⟩, high⟩
  | weaken _ _ ih => exact ih

/-- The statements of a parsed program follow each other in the text. -/
theorem FrontEnd.placedAll_of_parse {f : FrontEnd} {origin : Origin} {p : Program}
    (parsed : f.parse origin = .ok p) : Node.PlacedAll p.body 0 origin.text.length := by
  obtain ⟨ls, body, stream, statements, rfl⟩ := f.parse_eq_ok parsed
  have laid := (laid_ofOrigin origin).1
  rw [stream] at laid
  rw [Program.body_ofBody]
  exact statements.placed (fun _ _ reads => reads.within) laid

end SceneScript
