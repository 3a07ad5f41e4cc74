import SceneScript.Json.Basic
import SceneScript.Source.Position

/-!
Places: where tokens, nodes and values stand. A place is a position in a text. A tree file may have
written something else instead; such a note is carried along like a position, and matters only when
a message has to show it.
-/

namespace SceneScript

/-- What a tree file has written for a position. -/
structure Note where
  file : Json
  text : Json
  index : Json
  line : Json
  column : Json
deriving DecidableEq, Inhabited

inductive Place where
  | position (p : Position)
  | note (n : Note)
deriving DecidableEq, Inhabited

instance : Coe Position Place := ⟨.position⟩

namespace Place

def nowhere : Place := .position .nowhere

def file : Place → Json
  | .position p => .string p.origin.file
  | .note n => n.file

def text : Place → Json
  | .position p => .string p.origin.text
  | .note n => n.text

def line : Place → Json
  | .position p => .nat p.line
  | .note n => n.line

def column : Place → Json
  | .position p => .nat p.column
  | .note n => n.column

/-- One further on the same line, as far as a note counts. -/
def past : Place → Place
  | .position p => .position p.past
  | .note n =>
    .note { n with index := n.index.next?.getD n.index, column := n.column.next?.getD n.column }

/-- The three counts of a place. -/
def toJson : Place → Json
  | .position p => .array [.nat p.index, .nat p.line, .nat p.column]
  | .note n => .array [n.index, n.line, n.column]

/-- The place that a note stands for: a position, if it says what a position does. -/
def ofNote (n : Note) : Place :=
  match n.file, n.text, n.index, n.line, n.column with
  | .string file, .string text, .int (.ofNat index), .int (.ofNat line), .int (.ofNat column) =>
    .position ⟨⟨file, text⟩, index, line, column⟩
  | _, _, _, _, _ => .note n

end Place

/-- A stretch of text, `stop` excluded. -/
structure Span where
  start : Place
  stop : Place
deriving DecidableEq, Inhabited

namespace Span

def nowhere : Span := ⟨.nowhere, .nowhere⟩

/-- From the start of one span to the end of another. -/
def join (first last : Span) : Span := ⟨first.start, last.stop⟩

end Span

end SceneScript
