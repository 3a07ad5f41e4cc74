import SceneScript.Proofs.Parse.Completeness

/-!
All that a token can do to the parser by precedence where an operand starts and where a part ends:
every way in which the token is taken, and the fault if it is not.
-/

namespace SceneScript

theorem eq_nil_of_not_bracket {frames : List Frame}
    (brackets : ∀ f ∈ frames.head?, f.bracket?.isSome)
    (notGroup : ∀ outer, frames ≠ .group :: outer)
    (notCall : ∀ callee args outer, frames ≠ .call callee args :: outer)
    (notList : ∀ opener elements outer, frames ≠ .list opener elements :: outer) :
    frames = [] := by
  cases frames with
  | nil => rfl
  | cons f outer =>
    have isBracket := brackets f (by simp)
    cases f with
    | group => exact absurd rfl (notGroup outer)
    | call callee args => exact absurd rfl (notCall callee args outer)
    | list opener elements => exact absurd rfl (notList opener elements outer)
    | assign | binary | negate | sign => cases isBracket

namespace Parser

/-- A token where an operand starts. -/
inductive Starts (p : Parser) (t : Token) : Except ParseFault Parser → Prop
  | number (kind : t.kind = .number) : Starts p t (.ok (p.look (.operator (.ofNumber t) true)))
  | string (kind : t.kind = .string) : Starts p t (.ok (p.look (.operator (.ofString t) true)))
  | identifier (kind : t.kind = .identifier) :
      Starts p t (.ok (p.look (.operator (.ofIdentifier t) true)))
  | group (kind : t.kind = .leftParen) : Starts p t (.ok (p.push .group .operand))
  | list (kind : t.kind = .leftSquare) : Starts p t (.ok (p.push (.list t []) .item))
  | sign (isSign : t.isSign) : Starts p t (.ok (p.push (.sign t) .operand))
  | negate (kind : t.kind = .bang) (admitted : p.frames.head?.all Frame.admitsNegation) :
      Starts p t (.ok (p.push (.negate t) .operand))
  | name (isLet : t.isLet) (admitted : p.frames.head?.all Frame.admitsAssignment) :
      Starts p t (.ok (p.look .name))
  | refused : Starts p t (.error (.grammatical ⟨.operand, t.span⟩))

theorem starts (p : Parser) (t : Token) : p.Starts t (p.startOperand t) := by
  unfold startOperand
  split
  case h_1 kind => exact .number kind
  case h_2 kind => exact .string kind
  case h_3 kind => exact .identifier kind
  case h_4 kind => exact .group kind
  case h_5 kind => exact .list kind
  case h_6 kind => exact .sign (.inl kind)
  case h_7 kind => exact .sign (.inr kind)
  case h_8 kind =>
    split
    · exact .negate kind ‹_›
    · exact .refused
  case h_9 kind =>
    split
    · rename_i admitted
      exact .name ⟨kind, admitted.1⟩ admitted.2
    · exact .refused
  case h_10 => exact .refused

/-- A token behind a whole part, by the frames that the part is in. -/
inductive EndsPart (p : Parser) (part : Node) (t : Token) :
    List Frame → Except ParseFault Parser → Prop
  | group {outer : List Frame} (kind : t.kind = .rightParen) :
      EndsPart p part t (.group :: outer)
        (.ok { p with frames := outer, focus := .operator part true })
  | call {callee : Node} {args : List Node} {outer : List Frame} (kind : t.kind = .rightParen) :
      EndsPart p part t (.call callee args :: outer) (.ok { p with
        frames := outer, focus := .operator (.invoke callee (args ++ [part]) t) false })
  | argument {callee : Node} {args : List Node} {outer : List Frame} (kind : t.kind = .comma) :
      EndsPart p part t (.call callee args :: outer)
        (.ok { p with frames := .call callee (args ++ [part]) :: outer, focus := .operand })
  | list {opener : Token} {elements : List Node} {outer : List Frame}
      (kind : t.kind = .rightSquare) :
      EndsPart p part t (.list opener elements :: outer) (.ok { p with
        frames := outer, focus := .operator (.enumerate opener (elements ++ [part]) t) true })
  | element {opener : Token} {elements : List Node} {outer : List Frame} (kind : t.kind = .comma) :
      EndsPart p part t (.list opener elements :: outer)
        (.ok { p with frames := .list opener (elements ++ [part]) :: outer, focus := .operand })
  | statement (kind : t.kind = .semicolon) :
      EndsPart p part t [] (.ok ⟨part :: p.statements, [], .statement⟩)
  | unclosed {frames : List Frame} (bracket : Bracket) :
      EndsPart p part t frames (.error (.grammatical ⟨.closer bracket, t.span⟩))
  | unended : EndsPart p part t [] (.error (.grammatical ⟨.statementEnd, part.span⟩))

theorem endsPart (p : Parser) (part : Node) (t : Token) {frames : List Frame}
    (brackets : ∀ f ∈ frames.head?, f.bracket?.isSome) :
    p.EndsPart part t frames (p.endPart part frames t) := by
  unfold endPart
  split
  case h_1 =>
    split
    · exact .group ‹_›
    · exact .unclosed .group
  case h_2 =>
    simp only
    split
    · exact .call ‹_›
    · split
      · exact .argument ‹_›
      · exact .unclosed .call
  case h_3 =>
    simp only
    split
    · exact .list ‹_›
    · split
      · exact .element ‹_›
      · exact .unclosed .list
  case h_4 notGroup notCall notList =>
    obtain rfl := eq_nil_of_not_bracket brackets notGroup notCall notList
    split
    · exact .statement ‹_›
    · exact .unended

end Parser

end SceneScript
