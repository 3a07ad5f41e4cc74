import SceneScript.Json.Describe
import SceneScript.Node.Basic

/-!
Tree files: programs as JSON. Places are triples of index, line and column; the file's name and the
text they refer to are stored once. Reading takes the fields of an object in a fixed order, so that
the first thing wrong is the one reported, and ignores all others. It does not ask what stands for a
count, a text or a file's name.
-/

namespace SceneScript

def Token.toJson (t : Token) : Json :=
  .object [
    ("kind", .string t.kind.label),
    ("value", t.value),
    ("start", t.span.start.toJson),
    ("end", t.span.stop.toJson)]

/-- Why a tree has no JSON. -/
inductive Unwritable where
  /-- A node has no place. -/
  | noPlace
  /-- A node stands for nothing. -/
  | blankNode
deriving DecidableEq

namespace Node

/-- A node of a kind with its place and its other fields. -/
def toObject (kind : String) (span : Span) (fields : List (String × Json)) : Json :=
  .object ([("type", .string kind), ("start", span.start.toJson), ("end", span.stop.toJson)] ++
    fields)

mutual

/-- The JSON of a tree, unless it holds a node that stands for nothing. -/
def toJson : Node → Except Unwritable Json
  | .program body span => do
    let nodes ← allToJson body
    return toObject "Program" span [("body", .array nodes)]
  | .identifier t span => return toObject "Identifier" span [("token", t.toJson)]
  | .number t span => return toObject "NumberLiteral" span [("token", t.toJson)]
  | .string t span => return toObject "StringLiteral" span [("token", t.toJson)]
  | .binary left op right span => do
    let a ← toJson left
    let b ← toJson right
    return toObject "BinaryExpression" span [("left", a), ("op", op.toJson), ("right", b)]
  | .unary op operand span => do
    let a ← toJson operand
    return toObject "UnaryExpression" span [("op", op.toJson), ("operand", a)]
  | .list elements span => do
    let nodes ← allToJson elements
    return toObject "ListExpression" span [("elements", .array nodes)]
  | .call callee args span => do
    let a ← toJson callee
    let nodes ← allToJson args
    return toObject "CallExpression" span [("callee", a), ("args", .array nodes)]
  | .assign name value span => do
    let a ← toJson value
    return toObject "AssignExpression" span [("name", name.toJson), ("value", a)]
  | .blank (some _) (some _) => .error .blankNode
  | .blank _ _ => .error .noPlace

def allToJson : List Node → Except Unwritable (List Json)
  | [] => return []
  | node :: nodes => do
    let j ← toJson node
    let js ← allToJson nodes
    return j :: js

end

end Node

namespace Program

/-- The JSON of a program with the text it came from. -/
def toJson (p : Program) : Except Unwritable Json := do
  let tree ← p.toNode.toJson
  return .object [
    ("filename", p.span.start.file),
    ("source", p.span.start.text),
    ("program", tree)]

end Program

/-- What can be wrong with a tree file. -/
inductive TreeFault where
  /-- A field is missing, or a token has no such kind; the text is quoted. -/
  | missingKey (key : String)
  /-- A node is no object. -/
  | notAnObject
  | unknownType (type : String)
  | notAProgram
  /-- A place has not three parts. -/
  | badPlace
  /-- A field is of another kind. -/
  | badField
deriving DecidableEq

/-- What is said about a fault of a tree file, if anything. -/
def TreeFault.message? : TreeFault → Option String
  | .missingKey key => some key
  | .notAnObject => some "Invalid AST object"
  | .unknownType type => some ("Unknown AST node type: " ++ type)
  | .notAProgram => some "AST file does not contain a Program"
  | .badPlace | .badField => none

namespace Json

/-- A required field. -/
def require (fields : List (String × Json)) (key : String) : Except TreeFault Json :=
  match field? fields key with
  | some value => .ok value
  | none => .error (.missingKey (Text.quoted key))

/-- The parts of what can be gone through: items, or the keys or characters as texts. -/
def parts : Json → Except TreeFault (List Json)
  | .array items => .ok items
  | .object fields => .ok (fields.map fun (key, _) => .string key)
  | .string s => .ok (s.toList.map fun c => .string c.toString)
  | _ => .error .badField

end Json

/-- What a tree file says about its text, and what its places refer to. -/
structure Heading where
  file : Json
  text : Json

namespace Place

def ofJson (heading : Heading) (j : Json) : Except TreeFault Place := do
  match ← j.parts with
  | [index, line, column] => .ok (.ofNote ⟨heading.file, heading.text, index, line, column⟩)
  | _ => .error .badPlace

end Place

/-- The place of an object that has one. -/
def Span.ofFields (heading : Heading) (fields : List (String × Json)) : Except TreeFault Span := do
  let start ← Place.ofJson heading (← Json.require fields "start")
  let stop ← Place.ofJson heading (← Json.require fields "end")
  .ok ⟨start, stop⟩

namespace Token

def kindOfJson (j : Json) : Except TreeFault TokenKind :=
  match j with
  | .string s =>
    match TokenKind.ofLabel? s with
    | some kind => .ok kind
    | none => .error (.missingKey (Text.quoted s))
  | .array _ | .object _ => .error .badField
  | _ => .error (.missingKey j.describe)

def ofJson (heading : Heading) (j : Json) : Except TreeFault Token :=
  match j with
  | .object fields => do
    let kind ← kindOfJson (← Json.require fields "kind")
    let span ← Span.ofFields heading fields
    .ok ⟨kind, (Json.field? fields "value").getD .null, span⟩
  | _ => .error .badField

end Token

namespace Node

/-- Reads a tree that is nested at most as deep as the first argument says. -/
def ofJsonUpTo (heading : Heading) : Nat → Json → Except TreeFault Node
  | depth + 1, .object fields => do
    let span ← Span.ofFields heading fields
    let node (key : String) : Except TreeFault Node := do
      ofJsonUpTo heading depth (← Json.require fields key)
    let token (key : String) : Except TreeFault Token := do
      Token.ofJson heading (← Json.require fields key)
    let nodes (key : String) : Except TreeFault (List Node) := do
      (← (← Json.require fields key).parts).mapM (ofJsonUpTo heading depth)
    let type := (Json.field? fields "type").getD .null
    match type with
    | .string "Program" => return .program (← nodes "body") span
    | .string "Identifier" => return .identifier (← token "token") span
    | .string "NumberLiteral" => return .number (← token "token") span
    | .string "StringLiteral" => return .string (← token "token") span
    | .string "BinaryExpression" =>
      return .binary (← node "left") (← token "op") (← node "right") span
    | .string "UnaryExpression" => return .unary (← token "op") (← node "operand") span
    | .string "ListExpression" => return .list (← nodes "elements") span
    | .string "CallExpression" => return .call (← node "callee") (← nodes "args") span
    | .string "AssignExpression" => return .assign (← token "name") (← node "value") span
    | _ => .error (.unknownType type.display)
  | _, _ => .error .notAnObject

def ofJson (heading : Heading) (j : Json) : Except TreeFault Node :=
  ofJsonUpTo heading j.depth j

end Node

namespace Program

/-- Reads a tree file. -/
def ofJson (j : Json) : Except TreeFault Program :=
  match j with
  | .object fields => do
    let tree ← Json.require fields "program"
    let file ← Json.require fields "filename"
    let text ← Json.require fields "source"
    match ← Node.ofJson ⟨file, text⟩ tree with
    | .program body span => .ok ⟨body, span⟩
    | _ => .error .notAProgram
  | _ => .error .badField

end Program

end SceneScript
