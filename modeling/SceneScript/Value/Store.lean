import SceneScript.Value.Builtin
import SceneScript.Value.Scene
import SceneScript.Value.View

/-!
The store. Values live in cells and are shared by reference: variables and lists hold references,
and a cell's place and context can change under them. Tables bind names to references and fall
back on an older table for names they do not bind.
-/

namespace SceneScript

/-- The number of a cell. -/
abbrev Ref := Nat

/-- What values are bound to. In a tree file anything may stand for a name that can be told from
    others by itself. -/
inductive Name where
  | text (s : String)
  | missing
  | whole (n : Int)
  | fraction (x : Binary64)
deriving DecidableEq, Inhabited

namespace Name

instance : Coe String Name := ⟨.text⟩

/-- The name that a value is. Equal numbers are one name; arrays and objects are none. -/
def ofJson? (j : Json) : Option Name :=
  match j.amount with
  | .string s => some (.text s)
  | .null => some .missing
  | .int n => some (.whole n)
  | .float x => some (.fraction x)
  | _ => none

end Name

inductive Content where
  | number (x : Float)
  | text (s : String)
  /-- The value of a string literal of a tree file that holds something else. -/
  | literal (value : Json)
  | list (elements : List Ref)
  | builtin (b : Builtin)
  /-- A value that supports no operation at all. -/
  | plain
deriving Inhabited

/-- The content of a string literal. -/
def Content.ofLiteral : Json → Content
  | .string s => .text s
  | value => .literal value

structure Cell where
  content : Content
  stamp : Stamp
deriving Inhabited

structure Table where
  parent : Option TableId
  entries : List (Name × Ref)
deriving Inhabited, DecidableEq

namespace Table

/-- Binds a name in a list of bindings, in place of an earlier binding of it. -/
def bindIn (name : Name) (value : Ref) : List (Name × Ref) → List (Name × Ref)
  | [] => [(name, value)]
  | (n, v) :: rest =>
    if n = name then (n, value) :: rest else (n, v) :: bindIn name value rest

def bind (t : Table) (name : Name) (value : Ref) : Table :=
  { t with entries := bindIn name value t.entries }

/-- The value bound to a name in this very table. -/
def own? (t : Table) (name : Name) : Option Ref := t.entries.lookup name

end Table

/-- A call of a host's function, as the host saw it. -/
structure HostCall where
  name : String
  args : List View
  context : Context
  span : Span

/-- What is worth a line in the log. -/
inductive Event where
  | parsed (count : Nat) (file : String)
  | running (file : Json) (count : Nat)
  | visited (kind : String) (place : Place)
  | called (b : Builtin) (site : Span)
  | accepted (request : SceneRequest)

/-- All that a running program can change. The lists of calls and events have the latest first. -/
structure Machine where
  cells : Array Cell
  tables : Array Table
  output : String
  scene : Scene
  calls : List HostCall
  events : List Event

namespace Machine

/-- The cells of the constants. -/
def constant : Constant → Ref
  | .null => 0
  | .no => 1
  | .yes => 2

/-- A store that holds the constants and the scratch table only. -/
def initial : Machine where
  cells := #[⟨.number 0, .none⟩, ⟨.number 0, .none⟩, ⟨.number 1, .none⟩]
  tables := #[⟨none, []⟩]
  output := ""
  scene := .empty
  calls := []
  events := []

def cell (m : Machine) (r : Ref) : Cell := m.cells[r]?.getD default

def table (m : Machine) (id : TableId) : Table := m.tables[id]?.getD default

/-- Adds a cell. -/
def alloc (m : Machine) (c : Cell) : Ref × Machine :=
  (m.cells.size, { m with cells := m.cells.push c })

/-- Adds a table. -/
def newTable (m : Machine) (parent : Option TableId) : TableId × Machine :=
  (m.tables.size, { m with tables := m.tables.push ⟨parent, []⟩ })

def bind (m : Machine) (id : TableId) (name : Name) (value : Ref) : Machine :=
  { m with tables := m.tables.modify id (·.bind name value) }

/-- The value of a name in a table or, failing that, in the older ones behind it. -/
def lookup (m : Machine) (id : TableId) (name : Name) : Option Ref :=
  match (m.table id).own? name with
  | some value => some value
  | none =>
    match (m.table id).parent with
    | some parent => if parent < id then m.lookup parent name else none
    | none => none
termination_by id

/-- The view of a value up to a depth. -/
def viewUpTo (m : Machine) : Nat → Ref → View
  | 0, r => .plain (m.cell r).stamp
  | depth + 1, r =>
    let c := m.cell r
    match c.content with
    | .number x => .number x c.stamp
    | .text s => .text s c.stamp
    | .literal value => .literal value c.stamp
    | .list elements => .list (elements.map (m.viewUpTo depth)) c.stamp
    | .builtin b => .builtin b.name c.stamp
    | .plain => .plain c.stamp

/-- The view of a value. No value is nested deeper than there are cells. -/
def view (m : Machine) (r : Ref) : View := m.viewUpTo m.cells.size r

end Machine

end SceneScript
