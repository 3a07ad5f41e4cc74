/-!
Files as the command sees them: texts under paths below the directory in which it runs.
-/

namespace SceneScript.Command

/-- The text of a file; none where its bytes are no UTF-8. -/
abbrev FileText := Option String

/-- A relative path: names and steps up. -/
abbrev Path := List String

namespace Path

/-- Splits at slashes. -/
def split : List Char → List (List Char)
  | [] => [[]]
  | c :: cs =>
    if c = '/' then [] :: split cs
    else
      match split cs with
      | part :: parts => (c :: part) :: parts
      | [] => [[c]]

/-- Reads a path; empty parts and steps to the same place are dropped. -/
def ofText (text : String) : Path :=
  ((split text.toList).map String.ofList).filter fun part => part != "" && part != "."

def text (p : Path) : String := if p.isEmpty then "." else "/".intercalate p

/-- The path of a file next to this one with a longer name. -/
def addSuffix (p : Path) (suffix : String) : Path :=
  match p.getLast? with
  | some name => p.dropLast ++ [name ++ suffix]
  | none => p

end Path

structure Files where
  entries : List (Path × FileText)
  /-- Directories that need not hold any file. -/
  directories : List Path

/-- What is found at a path. -/
inductive Found where
  | missing
  | directory
  | file (text : FileText)
  /-- Nothing can have such a name. -/
  | nameTooLong

namespace Files

def isDirectory (fs : Files) (place : Path) : Bool :=
  place.isEmpty || fs.directories.contains place ||
    fs.entries.any fun (p, _) => place.isPrefixOf p && place.length < p.length

/-- The most bytes of a name. -/
def nameLimit : Nat := 255

/-- The bytes that a path has to stay below. -/
def pathLimit : Nat := 4096

/-- Why a path leads to no known place. -/
inductive Astray where
  /-- It leads through what is no directory, or to unknown parts. -/
  | lost
  /-- It leads to a directory around the one in which the command runs. -/
  | above
  | nameTooLong
deriving DecidableEq

/-- Where a path leads that starts around the directory in which the command runs: nothing is known
    there but that it goes on upwards. -/
def followAbove (rest : List String) : Astray :=
  match rest.dropWhile (· == "..") with
  | [] => .above
  | name :: _ => if nameLimit < name.utf8ByteSize then .nameTooLong else .lost

/-- The place that a path leads to from the place `here`, given backwards. -/
def follow (fs : Files) (here : List String) : List String → Except Astray Path
  | [] => .ok here.reverse
  | ".." :: rest =>
    match here with
    | _ :: up => follow fs up rest
    | [] => .error (followAbove rest)
  | name :: rest =>
    if nameLimit < name.utf8ByteSize then .error .nameTooLong
    else if rest.isEmpty || fs.isDirectory (name :: here).reverse then
      follow fs (name :: here) rest
    else .error .lost

/-- What is found at a path. There is nothing at one with a null character, however long it is. -/
def find (fs : Files) (p : Path) : Found :=
  if p.any (·.toList.contains '\x00') then .missing
  else if pathLimit ≤ p.text.utf8ByteSize then .nameTooLong
  else
    match fs.follow [] p with
    | .error .lost => .missing
    | .error .above => .directory
    | .error .nameTooLong => .nameTooLong
    | .ok place =>
      if fs.isDirectory place then .directory
      else
        match fs.entries.lookup place with
        | some text => .file text
        | none => .missing

/-- Replaces or adds an entry. -/
def writeIn (place : Path) (text : String) : List (Path × FileText) → List (Path × FileText)
  | [] => [(place, some text)]
  | (p, old) :: rest =>
    if p = place then (p, some text) :: rest else (p, old) :: writeIn place text rest

/-- Writes a text; nothing happens where there is no place for it. -/
def write (fs : Files) (p : Path) (text : String) : Files :=
  match fs.follow [] p with
  | .ok place => { fs with entries := writeIn place text fs.entries }
  | .error _ => fs

/-- The entries that are new or different from those of `before`. -/
def changesSince (fs before : Files) : List (Path × FileText) :=
  fs.entries.filter fun (p, text) => before.entries.lookup p != some text

end Files

end SceneScript.Command
