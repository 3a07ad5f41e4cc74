import SceneScript.Json.Describe
import SceneScript.Size
import SceneScript.Source.Place

/-!
Excerpts: the source lines that a span touches, each followed by a line of carets under the
part of it that the span covers, or one caret where it covers nothing. A span has one unless its
underlines are beyond all sizes or it lies between notes that count no lines and columns of a text.
-/

namespace SceneScript

/-- The pieces between newlines; there is always at least one. -/
def splitLines : List Char → List (List Char)
  | [] => [[]]
  | c :: cs =>
    if c = '\n' then [] :: splitLines cs
    else
      match splitLines cs with
      | line :: lines => (c :: line) :: lines
      | [] => [[c]]

namespace Excerpt

/-- Blanks up to column `first`, then carets up to column `last`, at least one. -/
def underline (first last : Nat) : List Char :=
  List.replicate first ' ' ++ List.replicate (max (last - first) 1) '^'

/-- The line numbered `number` of an excerpt and its underline. -/
def lineAt (lines : List (List Char)) (start stop : Position) (number : Nat) :
    List (List Char) :=
  let text := lines[number]?.getD []
  let first := if number = start.line then start.column else 0
  let last := if number = max stop.line start.line then stop.column else text.length
  [text, underline first last]

/-- All lines of the excerpt between two positions. -/
def linesBetween (text : List Char) (start stop : Position) : List (List Char) :=
  let count := max stop.line start.line + 1 - start.line
  (List.range' start.line count).flatMap (lineAt (splitLines text) start stop)

end Excerpt

/-- The text between two positions, underlined. -/
def excerpt (text : String) (start stop : Position) : String :=
  "\n".intercalate ((Excerpt.linesBetween text.toList start stop).map String.ofList)

/-- Why a place cannot be shown. -/
inductive Unreadable where
  /-- What should be the text is none. -/
  | noText
  /-- A line or a column is no count. -/
  | noCount
  /-- A column is beyond all sizes. -/
  | tooWide
  /-- There is no room for a line of the excerpt. -/
  | noRoom
  /-- The number of a line has too many digits. -/
  | tooLong
deriving DecidableEq

namespace Place

def counted (j : Json) : Except Unreadable Nat :=
  match j.toCount? with
  | some n => .ok n
  | none => .error .noCount

/-- The number of the line, counted from one. -/
def lineNumber (p : Place) : Except Unreadable String :=
  match p.line.next? with
  | none => .error .noCount
  | some (.int n) => if n.natAbs < Json.integerLimit then .ok (toString n) else .error .tooLong
  | some number => .ok number.display

end Place

namespace Span

/-- The last line of a span from the line `first` on. A number below `first` does not count. -/
def lastLine (first : Nat) : Json → Except Unreadable Nat
  | .float x => if x.isBelow first then .ok first else .error .noCount
  | line => (Place.counted line).map (max first)

/-- The column before which an underline from the column `first` on ends. A number up to `first`
    stands for none. -/
def lastColumn (first : Nat) : Json → Except Unreadable Nat
  | .float x => if x.isAtMost first then .ok 0 else .error .noCount
  | column => Place.counted column

/-- Checks the length of a part of an underline. -/
def checkWidth (n : Nat) : Except Unreadable Unit :=
  if sizeLimit ≤ n then .error .tooWide
  else if roomLimit ≤ n then .error .noRoom
  else .ok ()

/-- The text between two positions, underlined, unless the underlines are too long. -/
def excerptBetween (text : String) (start stop : Position) : Except Unreadable String := do
  checkWidth start.column
  checkWidth (if stop.line ≤ start.line then stop.column - start.column else stop.column)
  return SceneScript.excerpt text start stop

/-- The text of the span, underlined. -/
def excerpt (s : Span) : Except Unreadable String :=
  match s.start, s.stop with
  | .position start, .position stop => excerptBetween start.origin.text start stop
  | start, stop =>
    match start.text with
    | .string text => do
      let first ← Place.counted start.line
      let last ← lastLine first stop.line
      let column ← Place.counted start.column
      if last = first ∧ stop.column.next? = none then throw .noCount
      checkWidth column
      let reach ← lastColumn (if last = first then column else 0) stop.column
      let origin : Origin := ⟨"", text⟩
      excerptBetween text ⟨origin, 0, first, column⟩ ⟨origin, 0, last, reach⟩
    | _ => .error .noText

end Span

end SceneScript
