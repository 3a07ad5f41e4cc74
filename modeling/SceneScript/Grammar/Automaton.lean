import SceneScript.Grammar.Rule

/-!
The LALR(1) automaton of a list of rules, the first of which is the root's: the states are the
sets of items of the LR(0) automaton, and an item that is read to its end may be reduced in front
of those terminals that can follow it there, collected over all ways into the state.

Sets are numbers, one bit a member, and a table of sets is one number as well.
-/

namespace SceneScript.Grammar

/-- A set of terminals or of nonterminals. -/
abbrev SymbolSet := Nat

def Terminal.bit (t : Terminal) : SymbolSet := 1 <<< t.ctorIdx

def Nonterminal.bit (n : Nonterminal) : SymbolSet := 1 <<< n.ctorIdx

def Terminal.mem (t : Terminal) (s : SymbolSet) : Bool := s.testBit t.ctorIdx

def Nonterminal.mem (n : Nonterminal) (s : SymbolSet) : Bool := s.testBit n.ctorIdx

/-- One set of symbols for each place, side by side. -/
abbrev SetTable := Nat

namespace SetTable

/-- The bits of a place; there are fewer terminals and fewer nonterminals. -/
def width : Nat := 32

def get (table : SetTable) (place : Nat) : SymbolSet := (table >>> (place * width)) % (1 <<< width)

def add (table : SetTable) (place : Nat) (s : SymbolSet) : SetTable :=
  table ||| (s <<< (place * width))

end SetTable

/-- Repeats a step until it changes nothing, at most `fuel` times. -/
def untilStable (step : Nat → Nat) : Nat → Nat → Nat
  | 0, x => x
  | fuel + 1, x =>
    let y := step x
    if y = x then x else untilStable step fuel y

/-- Whether the symbols can derive the empty word, given the nonterminals that do. -/
def vanish (vanishing : SymbolSet) : List Symbol → Bool
  | [] => true
  | .terminal _ :: _ => false
  | .nonterminal n :: rest => n.mem vanishing && vanish vanishing rest

/-- The nonterminals that derive the empty word. -/
def nullable (rules : List Rule) : SymbolSet :=
  let round (known : SymbolSet) : SymbolSet :=
    rules.foldl (fun s r => if vanish s r.body then s ||| r.head.bit else s) known
  untilStable round Nonterminal.all.length 0

/-- The terminals that can begin what the symbols derive, or `following` where that is empty. -/
def firstOf (vanishing : SymbolSet) (first : SetTable) (following : SymbolSet) :
    List Symbol → SymbolSet
  | [] => following
  | .terminal t :: _ => t.bit
  | .nonterminal n :: rest =>
    if n.mem vanishing then first.get n.ctorIdx ||| firstOf vanishing first following rest
    else first.get n.ctorIdx

/-- The terminals that can begin what each nonterminal derives. The last rule comes first: most
    rules stand before those of their parts. -/
def firstSets (vanishing : SymbolSet) (rules : List Rule) : SetTable :=
  let round (first : SetTable) : SetTable :=
    rules.foldr (fun r table => table.add r.head.ctorIdx (firstOf vanishing table 0 r.body)) first
  untilStable round Nonterminal.all.length 0

/-- The nonterminals with which a derivation of each nonterminal can begin, itself included. -/
def leftCorners (rules : List Rule) : SetTable :=
  let round (corners : SetTable) : SetTable :=
    rules.foldr
      (fun r table =>
        match r.body with
        | .nonterminal n :: _ => table.add r.head.ctorIdx (table.get n.ctorIdx)
        | _ => table)
      corners
  let itself := Nonterminal.all.foldl (fun (table : SetTable) n => table.add n.ctorIdx n.bit) 0
  untilStable round Nonterminal.all.length itself

/-- A rule, by its number and its head, that is read up to the symbol numbered `dot`. -/
structure Item where
  rule : Nat
  head : Nonterminal
  dot : Nat
  /-- What is left to read. -/
  rest : List Symbol
deriving DecidableEq, Inhabited

/-- A set of items. -/
abbrev ItemSet := Nat

namespace Item

/-- The items of a rule are numbered in a row. -/
def number (i : Item) : Nat := i.rule * 16 + i.dot

/-- The item behind its next symbol. -/
def next (i : Item) : Item := ⟨i.rule, i.head, i.dot + 1, i.rest.tail⟩

/-- The items of a rule from `dot` on that stand in front of a symbol. -/
def unfinished (rule : Nat) (head : Nonterminal) (dot : Nat) : List Symbol → List Item
  | [] => []
  | symbol :: rest => ⟨rule, head, dot, symbol :: rest⟩ :: unfinished rule head (dot + 1) rest

def toSet (items : List Item) : ItemSet := items.foldl (fun s i => s ||| 1 <<< i.number) 0

end Item

/-- All items in front of a symbol. -/
structure Crossing where
  symbol : Symbol
  items : List Item
  set : ItemSet

/-- What is computed from the rules once. -/
structure Analysis where
  vanishing : SymbolSet
  first : SetTable
  corners : SetTable
  /-- The beginnings of all rules. -/
  starts : List Item
  crossings : List Crossing

namespace Analysis

def ofRules (rules : List Rule) : Analysis :=
  let vanishing := nullable rules
  let starts := rules.zipIdx.map fun (r, n) => (⟨n, r.head, 0, r.body⟩ : Item)
  let unfinished := starts.flatMap fun i => Item.unfinished i.rule i.head 0 i.rest
  let crossing (symbol : Symbol) : Crossing :=
    let items := unfinished.filter (·.rest.head? == some symbol)
    ⟨symbol, items, Item.toSet items⟩
  ⟨vanishing, firstSets vanishing rules, leftCorners rules, starts, Symbol.all.map crossing⟩

/-- The nonterminals that can be read next, directly or as the beginning of others. -/
def predicted (a : Analysis) (kernel : List Item) : SymbolSet :=
  kernel.foldl
    (fun s i =>
      match i.rest with
      | .nonterminal n :: _ => s ||| a.corners.get n.ctorIdx
      | _ => s)
    0

/-- The beginnings of all predicted rules. -/
def openings (a : Analysis) (kernel : List Item) : List Item :=
  let heads := a.predicted kernel
  a.starts.filter fun i => i.head.mem heads

/-- A state's items. -/
def closure (a : Analysis) (kernel : List Item) : List Item := kernel ++ a.openings kernel

end Analysis

/-- A way out of a state, with the items that go it. -/
structure Edge where
  symbol : Symbol
  target : Nat
  items : List Item

/-- A state: the items with which it is reached and the ways out of it. -/
structure State where
  kernel : List Item
  edges : List Edge
deriving Inhabited

namespace State

/-- The ways over the crossings out of a state with the given items. The states found so far are
    known by the items that go to them; those found now are added, and their kernels returned. -/
def follow (items : ItemSet) :
    List Crossing → List ItemSet → List Edge × List ItemSet × List (List Item)
  | [], known => ([], known, [])
  | c :: crossings, known =>
    let moved := items &&& c.set
    if moved = 0 then follow items crossings known
    else
      let movedItems := c.items.filter fun i => moved.testBit i.number
      match known.idxOf? moved with
      | some target =>
        let (edges, known, kernels) := follow items crossings known
        (⟨c.symbol, target, movedItems⟩ :: edges, known, kernels)
      | none =>
        let (edges, found, kernels) := follow items crossings (known ++ [moved])
        (⟨c.symbol, known.length, movedItems⟩ :: edges, found, movedItems.map Item.next :: kernels)

/-- The states from the pending kernels on, in the order in which they are found. -/
def explore (a : Analysis) : Nat → List ItemSet → List (List Item) → List State
  | 0, _, _ => []
  | _, _, [] => []
  | fuel + 1, known, kernel :: pending =>
    let (edges, known, kernels) := follow (Item.toSet (a.closure kernel)) a.crossings known
    ⟨kernel, edges⟩ :: explore a fuel known (pending ++ kernels)

/-- All states, from that of the first rule on; a number of states that is more than enough for a
    grammar in use is one for every item. -/
def all (a : Analysis) : List State :=
  let bound := a.starts.foldl (fun n i => n + i.rest.length + 1) 0
  explore a bound [0] [a.starts.take 1]

end State

/-- The terminals that can follow the items of all kernels. -/
abbrev Lookaheads := SetTable

/-- An item with the terminals that can follow it. -/
abbrev Outlook := Item × SymbolSet

namespace Lookaheads

/-- The place of an item of a state's kernel. -/
def place (state position : Nat) : Nat := state * 16 + position

/-- What can follow the items of a state's kernel. -/
def ofKernel (all : Lookaheads) (state : Nat) (kernel : List Item) : List Outlook :=
  kernel.zipIdx.map fun (i, n) => (i, all.get (place state n))

end Lookaheads

namespace Analysis

/-- Adds what can follow the nonterminal in front of an item. -/
def follow (a : Analysis) (table : SetTable) (outlook : Outlook) : SetTable :=
  match outlook.1.rest with
  | .nonterminal n :: rest => table.add n.ctorIdx (firstOf a.vanishing a.first outlook.2 rest)
  | _ => table

/-- The terminals that can follow each predicted nonterminal of a state. -/
def following (a : Analysis) (kernel : List Outlook) : SetTable :=
  let openings := a.openings (kernel.map Prod.fst)
  let round (table : SetTable) : SetTable :=
    openings.foldl (fun table i => a.follow table (i, table.get i.head.ctorIdx)) table
  untilStable round Nonterminal.all.length (kernel.foldl a.follow 0)

/-- What can follow an item of a state: the items outside the kernel are followed by what follows
    their heads. -/
def lookahead (kernel : List Outlook) (following : SetTable) (i : Item) : SymbolSet :=
  match kernel.find? (·.1.number == i.number) with
  | some outlook => outlook.2
  | none => following.get i.head.ctorIdx

/-- Sends what can follow the items of one state to the items they become. -/
def propagateFrom (a : Analysis) (number : Nat) (state : State) (all : Lookaheads) : Lookaheads :=
  let kernel := all.ofKernel number state.kernel
  let following := a.following kernel
  state.edges.foldl
    (fun all e =>
      e.items.zipIdx.foldl
        (fun all (i, n) => all.add (Lookaheads.place e.target n) (lookahead kernel following i))
        all)
    all

def lookaheads (a : Analysis) (states : List State) : Lookaheads :=
  let round (all : Lookaheads) : Lookaheads :=
    states.zipIdx.foldl (fun all (state, n) => a.propagateFrom n state all) all
  untilStable round states.length 0

end Analysis

/-- What a state does: the states that symbols lead to, and the rules that may be reduced in
    front of terminals. -/
structure Row where
  edges : List (Symbol × Nat)
  reductions : List (Nat × SymbolSet)
deriving DecidableEq, Inhabited

structure Automaton where
  rules : Array Rule
  rows : Array Row

inductive Action where
  | shift (state : Nat)
  | reduce (rule : Rule)
deriving DecidableEq

namespace Row

def ofState (a : Analysis) (all : Lookaheads) (number : Nat) (state : State) : Row :=
  let kernel := all.ofKernel number state.kernel
  let following := a.following kernel
  let finished := (a.closure state.kernel).filter (·.rest.isEmpty)
  ⟨state.edges.map fun e => (e.symbol, e.target),
    finished.map fun i => (i.rule, Analysis.lookahead kernel following i)⟩

/-- The terminals with which the state can do something, in the order of their names. -/
def expected (row : Row) : List Terminal :=
  Terminal.all.filter fun t =>
    (row.edges.lookup (.terminal t)).isSome || row.reductions.any fun (_, s) => t.mem s

end Row

namespace Automaton

def ofRules (rules : List Rule) : Automaton :=
  let a := Analysis.ofRules rules
  let states := State.all a
  let all := a.lookaheads states
  ⟨rules.toArray, (states.zipIdx.map fun (state, n) => Row.ofState a all n state).toArray⟩

def row (m : Automaton) (state : Nat) : Row := m.rows[state]?.getD default

/-- What a state does in front of a terminal. -/
def action? (m : Automaton) (state : Nat) (t : Terminal) : Option Action :=
  let row := m.row state
  match row.edges.lookup (.terminal t) with
  | some target => some (.shift target)
  | none => (row.reductions.find? fun (_, s) => t.mem s).bind fun (n, _) => m.rules[n]?.map .reduce

/-- The state that a finished nonterminal leads to. -/
def goto? (m : Automaton) (state : Nat) (n : Nonterminal) : Option Nat :=
  (m.row state).edges.lookup (.nonterminal n)

end Automaton

/-- The automaton of the language. -/
def automaton : Automaton := .ofRules rules

end SceneScript.Grammar
