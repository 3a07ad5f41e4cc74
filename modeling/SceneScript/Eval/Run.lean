import SceneScript.Eval.Node
import SceneScript.Grammar.Engine
import SceneScript.Parse.Precedence

/-!
Running programs: from text to a tree by one of the two parsers, and from a tree to what it does in
a context in which the constants and builtins are bound.
-/

namespace SceneScript

/-- The two parsers. -/
inductive FrontEnd where
  | precedence
  | grammar
deriving DecidableEq

namespace FrontEnd

/-- The name under which a parser is chosen. -/
def ofName? (name : String) : Option FrontEnd :=
  if name = "descent" then some .precedence
  else if name = "grammar" then some .grammar
  else none

def parse (f : FrontEnd) (origin : Origin) : Except ParseFault Program :=
  match f with
  | .precedence => SceneScript.parse origin
  | .grammar => Grammar.parse origin

end FrontEnd

namespace Machine

/-- Binds a builtin under its name. -/
def bindBuiltin (m : Machine) (id : TableId) (b : Builtin) : Machine :=
  let (r, m) := m.alloc ⟨.builtin b, .none⟩
  m.bind id b.name r

/-- A context for whole programs, with the constants, the builtins of the language and the given
    ones; of two with one name the later counts. -/
def programContext (m : Machine) (builtins : List Builtin) : Context × Machine :=
  let (id, m) := m.newTable none
  let m := m.bind id "null" (constant .null)
  let m := m.bind id "true" (constant .yes)
  let m := m.bind id "false" (constant .no)
  (.top "<program>" id, (Builtin.core ++ builtins).foldl (·.bindBuiltin id) m)

end Machine

namespace EvalM

/-- Runs a program in a context. -/
def runProgram (host : Host) (context : Context) (p : Program) : EvalM Unit := do
  record (.running p.span.start.file p.body.length)
  let _ ← eval host context p.toNode
  return ()

end EvalM

end SceneScript
