import SceneScript.Source.Excerpt

/-!
Contexts: the activation in which something is evaluated and the ones that called it. A traceback
lists them from the inside out, each at the place from which the next inner one was called.
-/

namespace SceneScript

/-- The number of a table of variables. -/
abbrev TableId := Nat

structure Activation where
  name : String
  table : TableId
  /-- The place of the call in the calling activation. -/
  calledAt : Option Place
deriving DecidableEq, Inhabited

structure Context where
  current : Activation
  /-- The calling activations, the nearest first. -/
  callers : List Activation
deriving DecidableEq, Inhabited

namespace Context

/-- A table that belongs to no program. -/
def scratch : TableId := 0

/-- The context of values that no program has touched. -/
def anonymous : Context := ⟨⟨"", scratch, none⟩, []⟩

/-- A context that nothing called. -/
def top (name : String) (table : TableId) : Context := ⟨⟨name, table, none⟩, []⟩

/-- An activation with a table of its own inside a context. -/
def enter (c : Context) (name : String) (table : TableId) (calledAt : Option Place) : Context :=
  ⟨⟨name, table, calledAt⟩, c.current :: c.callers⟩

/-- The activation of a builtin, which shares the caller's variables. -/
def call (c : Context) (name : String) (site : Place) : Context :=
  c.enter name c.current.table (some site)

def activations (c : Context) : List Activation := c.current :: c.callers

def names (c : Context) : List String := c.activations.map Activation.name

def table (c : Context) : TableId := c.current.table

/-- Activations from the inside out, each with the place in it, as far as places are known. -/
def placedFrom (place : Place) : List Activation → List (Place × Activation)
  | [] => []
  | a :: as =>
    (place, a) ::
      match a.calledAt with
      | some site => placedFrom site as
      | none => []

def placed (c : Context) (place : Place) : List (Place × Activation) :=
  placedFrom place c.activations

/-- The lines of a traceback. -/
def traceLines : List (Place × Activation) → Except Unreadable String
  | [] => .ok ""
  | (p, a) :: rest => do
    let number ← p.lineNumber
    let lines ← traceLines rest
    return "\tFile '" ++ p.file.display ++ "' -> line " ++ number ++ " -> " ++ a.name ++ "\n\n" ++
      lines

/-- The traceback of something that went wrong at `place`. -/
def traceback (c : Option Context) (place : Place) : Except Unreadable String := do
  let lines ← traceLines ((c.map (·.placed place)).getD [])
  return "traceback on:\n" ++ lines

end Context

/-- Where a value was made. -/
structure Stamp where
  span : Span
  context : Context
deriving DecidableEq, Inhabited

def Stamp.none : Stamp := ⟨.nowhere, .anonymous⟩

end SceneScript
