import SceneScript.Json.Basic
import SceneScript.Number.Text
import SceneScript.Text.Quoted

/-!
Writing JSON, on one line or with a line for each part. Numbers are shortest decimals; the values
that JSON has no numerals for are written as words.
-/

namespace SceneScript

namespace Json

/-- One UTF-16 unit as an escape. -/
def unitEscape (n : Nat) : List Char := ['\\', 'u'] ++ Text.hexDigits 4 n

/-- A character as escapes of its UTF-16 units. -/
def escapeUnits (c : Char) : List Char :=
  let n := c.toNat
  if n < 0x10000 then unitEscape n
  else
    let offset := n - 0x10000
    unitEscape (0xD800 + offset / 0x400) ++ unitEscape (0xDC00 + offset % 0x400)

/-- A character between quotes; `ascii` also escapes what is not printable ASCII. -/
def escapeChar (ascii : Bool) (c : Char) : List Char :=
  if c = '"' ∨ c = '\\' then ['\\', c]
  else if c = '\n' then ['\\', 'n']
  else if c = '\r' then ['\\', 'r']
  else if c = '\t' then ['\\', 't']
  else if c = '\x0c' then ['\\', 'f']
  else if c = '\x08' then ['\\', 'b']
  else if c.toNat < 0x20 then unitEscape c.toNat
  else if ascii && 0x7E < c.toNat then escapeUnits c
  else [c]

def quote (ascii : Bool) (s : String) : String :=
  String.ofList ('"' :: s.toList.flatMap (escapeChar ascii) ++ ['"'])

def floatText (x : Binary64) : String := x.decimalText "NaN" "Infinity"

mutual

/-- On one line. -/
def compact (ascii : Bool) : Json → String
  | .null => "null"
  | .bool b => if b then "true" else "false"
  | .int n => toString n
  | .float x => floatText x
  | .string s => quote ascii s
  | .array items => "[" ++ ", ".intercalate (compactItems ascii items) ++ "]"
  | .object fields => "\x7b" ++ ", ".intercalate (compactFields ascii fields) ++ "\x7d"

def compactItems (ascii : Bool) : List Json → List String
  | [] => []
  | item :: items => compact ascii item :: compactItems ascii items

def compactFields (ascii : Bool) : List (String × Json) → List String
  | [] => []
  | (key, value) :: fields =>
    (quote ascii key ++ ": " ++ compact ascii value) :: compactFields ascii fields

end

def newline (level : Nat) : String := "\n" ++ String.ofList (List.replicate (2 * level) ' ')

/-- Parts between brackets, each on a line of its own, two blanks further in than `level`. -/
def block (opener closer : String) (level : Nat) (parts : List String) : String :=
  if parts.isEmpty then opener ++ closer
  else
    opener ++ newline (level + 1) ++ ("," ++ newline (level + 1)).intercalate parts ++
      newline level ++ closer

mutual

/-- With a line for each part, where the value stands at `level`. -/
def prettyAt (ascii : Bool) (level : Nat) : Json → String
  | .array items => block "[" "]" level (prettyItems ascii (level + 1) items)
  | .object fields => block "\x7b" "\x7d" level (prettyFields ascii (level + 1) fields)
  | .null => "null"
  | .bool b => if b then "true" else "false"
  | .int n => toString n
  | .float x => floatText x
  | .string s => quote ascii s

def prettyItems (ascii : Bool) (level : Nat) : List Json → List String
  | [] => []
  | item :: items => prettyAt ascii level item :: prettyItems ascii level items

def prettyFields (ascii : Bool) (level : Nat) : List (String × Json) → List String
  | [] => []
  | (key, value) :: fields =>
    (quote ascii key ++ ": " ++ prettyAt ascii level value) :: prettyFields ascii level fields

end

/-- With a line for each part. -/
def pretty (ascii : Bool) (j : Json) : String := prettyAt ascii 0 j

end Json

end SceneScript
