import SceneScript.Node.Json
import SceneScript.Proofs.Node.Places

/-!
Trees survive being written: a tree of which all places refer to one text is read back from its JSON
as it was, with every place of every node and token.
-/

namespace SceneScript

section Places

variable (n : Note)

theorem Place.toJson_ofNote : (Place.ofNote n).toJson = .array [n.index, n.line, n.column] := by
  unfold ofNote
  split
  · rename_i index line column
    rw [index, line, column]
    rfl
  · rfl

theorem Place.file_ofNote : (Place.ofNote n).file = n.file := by
  unfold ofNote
  split
  · rename_i file _ _ _ _
    exact file.symm
  · rfl

theorem Place.text_ofNote : (Place.ofNote n).text = n.text := by
  unfold ofNote
  split
  · rename_i text _ _ _
    exact text.symm
  · rfl

end Places

/-- The place refers to the file and the text of the heading, whatever its counts are. -/
def Heading.Covers (heading : Heading) (place : Place) : Prop :=
  ∃ index line column, place = .ofNote ⟨heading.file, heading.text, index, line, column⟩

section Covers

variable {heading : Heading} {place : Place}

theorem Heading.Covers.file (covered : heading.Covers place) : place.file = heading.file := by
  obtain ⟨index, line, column, rfl⟩ := covered
  exact Place.file_ofNote _

theorem Heading.Covers.text (covered : heading.Covers place) : place.text = heading.text := by
  obtain ⟨index, line, column, rfl⟩ := covered
  exact Place.text_ofNote _

end Covers

theorem Heading.covers_position {origin : Origin} {p : Position} (same : p.origin = origin) :
    Heading.Covers ⟨.string origin.file, .string origin.text⟩ p := by
  obtain ⟨_, index, line, column⟩ := p
  subst same
  exact ⟨.nat index, .nat line, .nat column, rfl⟩

theorem Origin.Has.covered {origin : Origin} {place : Place} (has : origin.Has place) :
    Heading.Covers ⟨.string origin.file, .string origin.text⟩ place := by
  obtain ⟨front, _, -, rfl⟩ := has
  exact Heading.covers_position (Position.origin_walk _ front)

section Reading

variable {heading : Heading}

theorem Place.ofJson_toJson {place : Place} (covered : heading.Covers place) :
    Place.ofJson heading place.toJson = .ok place := by
  obtain ⟨index, line, column, rfl⟩ := covered
  rw [toJson_ofNote]
  rfl

theorem Span.ofFields_eq {fields : List (String × Json)} {span : Span}
    (start : Json.field? fields "start" = some span.start.toJson)
    (stop : Json.field? fields "end" = some span.stop.toJson)
    (located : span.Located heading.Covers) :
    Span.ofFields heading fields = .ok span := by
  rw [ofFields, Json.require, start, Json.require, stop]
  show (do
    let start ← Place.ofJson heading span.start.toJson
    let stop ← Place.ofJson heading span.stop.toJson
    .ok ⟨start, stop⟩) = Except.ok span
  rw [Place.ofJson_toJson located.1, Place.ofJson_toJson located.2]
  rfl

theorem TokenKind.ofLabel?_label (kind : TokenKind) : ofLabel? kind.label = some kind := by
  cases kind <;> decide

theorem Token.ofJson_toJson {t : Token} (located : t.span.Located heading.Covers) :
    Token.ofJson heading t.toJson = .ok t := by
  have kind : kindOfJson (.string t.kind.label) = .ok t.kind := by
    rw [kindOfJson, TokenKind.ofLabel?_label]
  have span : Span.ofFields heading [("kind", .string t.kind.label), ("value", t.value),
      ("start", t.span.start.toJson), ("end", t.span.stop.toJson)] = .ok t.span :=
    Span.ofFields_eq rfl rfl located
  show (do
    let kind ← kindOfJson (.string t.kind.label)
    let span ← Span.ofFields heading _
    .ok ⟨kind, t.value, span⟩) = Except.ok t
  rw [kind, span]
  rfl

end Reading

namespace Node

section Objects

variable {heading : Heading} {kind : String} {span : Span} {fields : List (String × Json)}

theorem ofFields_toObject (located : span.Located heading.Covers) :
    Span.ofFields heading ([("type", .string kind), ("start", span.start.toJson),
      ("end", span.stop.toJson)] ++ fields) = .ok span :=
  Span.ofFields_eq rfl rfl located

end Objects

/-- The node has a JSON, from which it is read back whenever the depth of that is allowed for. -/
def Returns (heading : Heading) (node : Node) : Prop :=
  ∃ j, node.toJson = .ok j ∧ ∀ depth, j.depth ≤ depth → ofJsonUpTo heading depth j = .ok node

theorem Returns.of_object {heading : Heading} {node : Node} {kind : String} {span : Span}
    {fields : List (String × Json)} (written : node.toJson = .ok (toObject kind span fields))
    (read : ∀ below, Json.depthOfFields fields ≤ below →
      ofJsonUpTo heading (below + 1) (toObject kind span fields) = .ok node) :
    node.Returns heading := by
  refine ⟨_, written, fun depth deep => ?_⟩
  simp only [toObject, List.cons_append, List.nil_append, Json.depth, Json.depthOfFields] at deep
  obtain ⟨below, rfl⟩ : ∃ below, depth = below + 1 := ⟨depth - 1, by omega⟩
  exact read below (by omega)

def AllReturn (heading : Heading) (nodes : List Node) : Prop :=
  ∃ js, allToJson nodes = .ok js ∧
    ∀ depth, Json.depthOfItems js ≤ depth → js.mapM (ofJsonUpTo heading depth) = .ok nodes

section Kinds

variable {heading : Heading} {left right value : Node} {nodes : List Node} {op token : Token}
  {span : Span}

theorem returns_program (own : span.Located heading.Covers) (parts : AllReturn heading nodes) :
    (program nodes span).Returns heading := by
  obtain ⟨js, written, read⟩ := parts
  refine .of_object (by rw [toJson, written]; rfl) fun below fits => ?_
  simp only [Json.depthOfFields, Json.depth] at fits
  rw [toObject, ofJsonUpTo, ofFields_toObject own]
  show (do return program (← js.mapM (ofJsonUpTo heading below)) span : Except TreeFault Node) = _
  rw [read below (by omega)]
  rfl

theorem returns_list (own : span.Located heading.Covers) (parts : AllReturn heading nodes) :
    (list nodes span).Returns heading := by
  obtain ⟨js, written, read⟩ := parts
  refine .of_object (by rw [toJson, written]; rfl) fun below fits => ?_
  simp only [Json.depthOfFields, Json.depth] at fits
  rw [toObject, ofJsonUpTo, ofFields_toObject own]
  show (do return list (← js.mapM (ofJsonUpTo heading below)) span : Except TreeFault Node) = _
  rw [read below (by omega)]
  rfl

theorem returns_call (own : span.Located heading.Covers) (first : value.Returns heading)
    (parts : AllReturn heading nodes) : (call value nodes span).Returns heading := by
  obtain ⟨j, written, read⟩ := first
  obtain ⟨js, allWritten, allRead⟩ := parts
  refine .of_object (by rw [toJson, written, allWritten]; rfl) fun below fits => ?_
  simp only [Json.depthOfFields, Json.depth] at fits
  rw [toObject, ofJsonUpTo, ofFields_toObject own]
  show (do
    return call (← ofJsonUpTo heading below j) (← js.mapM (ofJsonUpTo heading below)) span :
      Except TreeFault Node) = _
  rw [read below (by omega), allRead below (by omega)]
  rfl

theorem returns_binary (own : span.Located heading.Covers) (first : left.Returns heading)
    (sign : op.span.Located heading.Covers) (second : right.Returns heading) :
    (binary left op right span).Returns heading := by
  obtain ⟨a, writtenLeft, readLeft⟩ := first
  obtain ⟨b, writtenRight, readRight⟩ := second
  refine .of_object (by rw [toJson, writtenLeft, writtenRight]; rfl) fun below fits => ?_
  simp only [Json.depthOfFields] at fits
  rw [toObject, ofJsonUpTo, ofFields_toObject own]
  show (do
    return binary (← ofJsonUpTo heading below a) (← Token.ofJson heading op.toJson)
      (← ofJsonUpTo heading below b) span : Except TreeFault Node) = _
  rw [readLeft below (by omega), Token.ofJson_toJson sign, readRight below (by omega)]
  rfl

theorem returns_unary (own : span.Located heading.Covers) (sign : op.span.Located heading.Covers)
    (operand : value.Returns heading) : (unary op value span).Returns heading := by
  obtain ⟨j, written, read⟩ := operand
  refine .of_object (by rw [toJson, written]; rfl) fun below fits => ?_
  simp only [Json.depthOfFields] at fits
  rw [toObject, ofJsonUpTo, ofFields_toObject own]
  show (do
    return unary (← Token.ofJson heading op.toJson) (← ofJsonUpTo heading below j) span :
      Except TreeFault Node) = _
  rw [Token.ofJson_toJson sign, read below (by omega)]
  rfl

theorem returns_assign (own : span.Located heading.Covers)
    (name : token.span.Located heading.Covers) (bound : value.Returns heading) :
    (assign token value span).Returns heading := by
  obtain ⟨j, written, read⟩ := bound
  refine .of_object (by rw [toJson, written]; rfl) fun below fits => ?_
  simp only [Json.depthOfFields] at fits
  rw [toObject, ofJsonUpTo, ofFields_toObject own]
  show (do
    return assign (← Token.ofJson heading token.toJson) (← ofJsonUpTo heading below j) span :
      Except TreeFault Node) = _
  rw [Token.ofJson_toJson name, read below (by omega)]
  rfl

end Kinds

mutual

theorem returns {heading : Heading} {node : Node} (located : node.Located heading.Covers) :
    node.Returns heading := by
  cases node with
  | program body span => exact returns_program located.1 (allReturn located.2)
  | identifier t span | number t span | string t span =>
    obtain ⟨own, token⟩ := located
    refine .of_object (by rw [toJson]; rfl) fun below _ => ?_
    rw [toObject, ofJsonUpTo, ofFields_toObject own]
    show (Token.ofJson heading t.toJson).bind _ = Except.ok _
    rw [Token.ofJson_toJson token]
    rfl
  | binary left op right span =>
    obtain ⟨own, first, sign, second⟩ := located
    exact returns_binary own (returns first) sign (returns second)
  | unary op operand span => exact returns_unary located.1 located.2.1 (returns located.2.2)
  | list elements span => exact returns_list located.1 (allReturn located.2)
  | call callee args span =>
    exact returns_call located.1 (returns located.2.1) (allReturn located.2.2)
  | assign name value span => exact returns_assign located.1 located.2.1 (returns located.2.2)
  | blank => exact located.elim

theorem allReturn {heading : Heading} {nodes : List Node}
    (located : AllHold (Span.Located heading.Covers) (fun t => t.span.Located heading.Covers)
      nodes) : AllReturn heading nodes := by
  cases nodes with
  | nil => exact ⟨[], by rw [allToJson]; rfl, fun _ _ => rfl⟩
  | cons node nodes =>
    obtain ⟨j, written, read⟩ := returns located.1
    obtain ⟨js, allWritten, allRead⟩ := allReturn located.2
    refine ⟨j :: js, by rw [allToJson, written, allWritten]; rfl, fun depth deep => ?_⟩
    rw [Json.depthOfItems] at deep
    rw [List.mapM_cons, read depth (by omega), allRead depth (by omega)]
    rfl

end

end Node

theorem Program.ofJson_toJson {heading : Heading} {p : Program}
    (located : p.toNode.Located heading.Covers) :
    ∃ j, p.toJson = .ok j ∧ Program.ofJson j = .ok p := by
  obtain ⟨tree, written, read⟩ := Node.returns located
  have file : p.span.start.file = heading.file := located.span.1.file
  have text : p.span.start.text = heading.text := located.span.1.text
  refine ⟨.object [("filename", heading.file), ("source", heading.text), ("program", tree)], ?_, ?_⟩
  · rw [toJson, written, file, text]
    rfl
  · have node : Node.ofJson heading tree = .ok p.toNode := read _ (Nat.le_refl _)
    simp only [ofJson, Json.require, Json.field?, List.lookup_cons, String.reduceBEq, Bind.bind,
      Except.bind, node]
    rfl

/-- A program is read back from its JSON as it was, if all its places refer to one file and text;
    and those of a parsed program do. -/
theorem trees_survive_being_written :
    (∀ (heading : Heading) (p : Program), p.toNode.Located heading.Covers →
      ∃ j, p.toJson = .ok j ∧ Program.ofJson j = .ok p) ∧
    ∀ (f : FrontEnd) (origin : Origin) (p : Program), f.parse origin = .ok p →
      ∃ j, p.toJson = .ok j ∧ Program.ofJson j = .ok p := by
  refine ⟨fun heading p located => Program.ofJson_toJson located, fun f origin p parsed => ?_⟩
  exact Program.ofJson_toJson ((f.located_of_parse parsed).mono fun _ has => has.covered)

/-- A program inside another one, which no text has, and a program with an empty call. -/
theorem written_trees_of_both_kinds :
    (∃ j, (Program.mk [.program [] ⟨Position.nowhere, Position.nowhere.past⟩] .nowhere).toJson =
        .ok j ∧
      Program.ofJson j =
        .ok ⟨[.program [] ⟨Position.nowhere, Position.nowhere.past⟩], .nowhere⟩) ∧
    ∃ p j, FrontEnd.precedence.parse ⟨"calls", "f();\n"⟩ = .ok p ∧ p.toJson = .ok j ∧
      Program.ofJson j = .ok p := by
  constructor
  · have nowhere : Heading.Covers ⟨.string "", .string ""⟩ .nowhere := Heading.covers_position rfl
    have past : Heading.Covers ⟨.string "", .string ""⟩ Position.nowhere.past :=
      Heading.covers_position rfl
    exact trees_survive_being_written.1 ⟨.string "", .string ""⟩ _
      ⟨⟨nowhere, nowhere⟩, ⟨⟨nowhere, past⟩, trivial⟩, trivial⟩
  · obtain ⟨p, parsed⟩ : ∃ p, FrontEnd.precedence.parse ⟨"calls", "f();\n"⟩ = .ok p :=
      FrontEnd.exists_of_toBool (by decide +kernel)
    obtain ⟨j, written, read⟩ := trees_survive_being_written.2 .precedence _ p parsed
    exact ⟨p, j, parsed, written, read⟩

end SceneScript
