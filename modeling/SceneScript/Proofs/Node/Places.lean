import SceneScript.Proofs.Parse.Layout
import SceneScript.Proofs.Source.Lines

/-!
Properties that all places of a tree have: those of its nodes and those of the tokens in them. What
is parsed has all its places in the text it is parsed from.
-/

namespace SceneScript

/-- Both ends of the span are places as described. -/
def Span.Located (P : Place → Prop) (s : Span) : Prop := P s.start ∧ P s.stop

theorem Span.Located.join {P : Place → Prop} {s t : Span} (first : s.Located P)
    (last : t.Located P) : (s.join t).Located P := ⟨first.1, last.2⟩

namespace Node

mutual

/-- The node and all its parts stand for something, and their spans and tokens are as described. -/
def Holds (S : Span → Prop) (T : Token → Prop) : Node → Prop
  | .program body span => S span ∧ AllHold S T body
  | .identifier t span | .number t span | .string t span => S span ∧ T t
  | .binary left op right span => S span ∧ Holds S T left ∧ T op ∧ Holds S T right
  | .unary op operand span => S span ∧ T op ∧ Holds S T operand
  | .list elements span => S span ∧ AllHold S T elements
  | .call callee args span => S span ∧ Holds S T callee ∧ AllHold S T args
  | .assign name value span => S span ∧ T name ∧ Holds S T value
  | .blank .. => False

def AllHold (S : Span → Prop) (T : Token → Prop) : List Node → Prop
  | [] => True
  | node :: nodes => Holds S T node ∧ AllHold S T nodes

end

section Holds

variable {S S' : Span → Prop} {T T' : Token → Prop}

theorem Holds.span {node : Node} (holds : node.Holds S T) : S node.span := by
  cases node with
  | blank => exact holds.elim
  | _ => exact holds.1

theorem allHold_iff {nodes : List Node} : AllHold S T nodes ↔ ∀ node ∈ nodes, node.Holds S T := by
  induction nodes with
  | nil => simp [AllHold]
  | cons node nodes ih => simp [AllHold, ih]

mutual

theorem Holds.mono (spans : ∀ s, S s → S' s) (tokens : ∀ t, T t → T' t) :
    ∀ {node : Node}, node.Holds S T → node.Holds S' T'
  | .program _ _, ⟨own, parts⟩ | .list _ _, ⟨own, parts⟩ =>
    ⟨spans _ own, AllHold.mono spans tokens parts⟩
  | .identifier _ _, ⟨own, token⟩ | .number _ _, ⟨own, token⟩ | .string _ _, ⟨own, token⟩ =>
    ⟨spans _ own, tokens _ token⟩
  | .binary _ _ _ _, ⟨own, left, token, right⟩ =>
    ⟨spans _ own, left.mono spans tokens, tokens _ token, right.mono spans tokens⟩
  | .unary _ _ _, ⟨own, token, part⟩ | .assign _ _ _, ⟨own, token, part⟩ =>
    ⟨spans _ own, tokens _ token, part.mono spans tokens⟩
  | .call _ _ _, ⟨own, callee, args⟩ =>
    ⟨spans _ own, callee.mono spans tokens, AllHold.mono spans tokens args⟩

theorem AllHold.mono (spans : ∀ s, S s → S' s) (tokens : ∀ t, T t → T' t) :
    ∀ {nodes : List Node}, AllHold S T nodes → AllHold S' T' nodes
  | [], _ => trivial
  | _ :: _, ⟨first, others⟩ => ⟨first.mono spans tokens, AllHold.mono spans tokens others⟩

end

end Holds

/-- All places of the node are as described, those of its tokens too. -/
def Located (P : Place → Prop) : Node → Prop := Holds (Span.Located P) fun t => t.span.Located P

theorem Located.mono {P Q : Place → Prop} (more : ∀ p, P p → Q p) {node : Node}
    (located : node.Located P) : node.Located Q :=
  Holds.mono (fun _ own => ⟨more _ own.1, more _ own.2⟩) (fun _ own => ⟨more _ own.1, more _ own.2⟩)
    located

end Node

section Reading

variable {S : Span → Prop} {T : Token → Prop}

/-- What is read from tokens as described has such tokens; its spans reach from one of them to
    another. -/
theorem Reads.holds (spans : ∀ t, T t → S t.span) (joined : ∀ s t, S s → S t → S (s.join t))
    {k : Nat} {ts : List Token} {n : Node} (reads : Reads k ts n) :
    (∀ t ∈ ts, T t) → n.Holds S T := by
  have items {ts : List Token} {ns : List Node}
      (items : Items (fun us n => ∃ _ : Reads 0 us n, (∀ t ∈ us, T t) → n.Holds S T) ts ns)
      (tokens : ∀ t ∈ ts, T t) : Node.AllHold S T ns := by
    refine Node.allHold_iff.mpr fun n member => ?_
    obtain ⟨us, within, _, holds⟩ := items.exists_of_mem member
    exact holds fun t inside => tokens t (within.subset inside)
  induction reads with
  | number | string | identifier =>
    intro tokens
    have own := tokens _ List.mem_cons_self
    exact ⟨spans _ own, own⟩
  | group _ _ _ ih => exact fun tokens => ih fun t inside => tokens t (by simp [inside])
  | list _ parts _ =>
    intro tokens
    have opener := tokens _ List.mem_cons_self
    have closer := tokens _ (List.mem_append_right _ List.mem_cons_self)
    exact ⟨joined _ _ (spans _ opener) (spans _ closer),
      items parts fun t inside => tokens t (by simp [inside])⟩
  | call _ _ parts _ ih =>
    intro tokens
    have callee := ih fun t inside => tokens t (by simp [inside])
    have closer := tokens _ (List.mem_append_right _ (List.mem_append_right _ List.mem_cons_self))
    exact ⟨joined _ _ callee.span (spans _ closer), callee,
      items parts fun t inside => tokens t (by simp [inside])⟩
  | sign _ _ ih | negation _ _ ih =>
    intro tokens
    have op := tokens _ List.mem_cons_self
    have operand := ih fun t inside => tokens t (by simp [inside])
    exact ⟨joined _ _ (spans _ op) operand.span, op, operand⟩
  | binary _ _ _ first second =>
    intro tokens
    have left := first fun t inside => tokens t (by simp [inside])
    have right := second fun t inside => tokens t (by simp [inside])
    exact ⟨joined _ _ left.span right.span, left, tokens _ (by simp), right⟩
  | assignment _ _ _ _ ih =>
    intro tokens
    have name := tokens _ (List.mem_cons_of_mem _ List.mem_cons_self)
    have value := ih fun t inside => tokens t (by simp [inside])
    exact ⟨joined _ _ (spans _ name) value.span, name, value⟩
  | weaken _ _ ih => exact ih

end Reading

/-- The place is a position of the text, perhaps its end. -/
def Origin.Has (origin : Origin) (place : Place) : Prop :=
  ∃ front back, origin.text.toList = front ++ back ∧ place = (Position.start origin).walk front

theorem Origin.has_position (origin : Origin) {index : Nat}
    (within : index ≤ origin.text.length) :
    origin.Has ((LineIndex.ofOrigin origin).position index) := by
  have split := (List.take_append_drop index origin.text.toList).symm
  have length : (origin.text.toList.take index).length = index := by
    rw [List.length_take, String.length_toList, Nat.min_eq_left within]
  have reached := LineIndex.position_eq_walk split
  rw [length] at reached
  exact ⟨_, _, split, by rw [reached]⟩

theorem Laid.located {origin : Origin} {ls : List Grammar.Lexeme} {lo hi : Nat}
    (laid : Laid lo hi (ls.map (·.toToken (.ofOrigin origin)))) (within : hi ≤ origin.text.length) :
    ∀ t ∈ ls.map (·.toToken (.ofOrigin origin)), t.span.Located origin.Has := by
  induction ls generalizing lo with
  | nil => simp
  | cons l ls ih =>
    obtain ⟨a, b, low, ⟨start, stop, same, rfl, rfl, ordered⟩, others⟩ := laid
    cases same
    have before := others.le
    refine List.forall_mem_cons.mpr ⟨⟨?_, ?_⟩, ih others⟩
    · exact origin.has_position (Nat.le_trans (Nat.le_of_lt ordered) (Nat.le_trans before within))
    · exact origin.has_position (Nat.le_trans before within)

/-- What holds of the lexemes of a text holds all through the program that is parsed from it. -/
theorem FrontEnd.holds_of_parse {S : Span → Prop} {T : Token → Prop}
    (spans : ∀ t, T t → S t.span) (joined : ∀ s t, S s → S t → S (s.join t)) {f : FrontEnd}
    {origin : Origin} {p : Program} (parsed : f.parse origin = .ok p)
    (start : S ⟨Position.start origin, Position.start origin⟩)
    (tokens : ∀ l : Grammar.Lexeme, (l.toToken (.ofOrigin origin)).span.Located origin.Has →
      T (l.toToken (.ofOrigin origin))) : p.toNode.Holds S T := by
  obtain ⟨ls, body, stream, statements, rfl⟩ := f.parse_eq_ok parsed
  have laid := (laid_ofOrigin origin).1
  rw [stream] at laid
  have holds : Node.AllHold S T body := by
    refine Node.allHold_iff.mpr fun n member => ?_
    obtain ⟨us, within, reads⟩ := statements.exists_of_mem member
    refine reads.holds spans joined fun t inside => ?_
    have located := laid.located (Nat.le_refl _) t (within.subset inside)
    obtain ⟨l, -, rfl⟩ := List.mem_map.mp (within.subset inside)
    exact tokens l located
  cases body with
  | nil => exact ⟨start, holds⟩
  | cons first rest =>
    have last : (rest.getLastD first).Holds S T :=
      Node.allHold_iff.mp holds _ List.getLastD_mem_cons
    exact ⟨joined _ _ holds.1.span last.span, holds⟩

theorem Origin.has_start (origin : Origin) : origin.Has (Position.start origin) :=
  ⟨[], _, rfl, rfl⟩

/-- All places of a parsed program are in its text. -/
theorem FrontEnd.located_of_parse {f : FrontEnd} {origin : Origin} {p : Program}
    (parsed : f.parse origin = .ok p) : p.toNode.Located origin.Has :=
  f.holds_of_parse (fun _ own => own) (fun _ _ first last => first.join last) parsed
    ⟨origin.has_start, origin.has_start⟩ fun _ located => located

end SceneScript
