/-!
Positions in a program text. A position counts characters from zero in three ways: from the
start of the text, in lines, and from the start of its line. Only a newline starts a line.
-/

namespace SceneScript

/-- A named text; positions refer to it. -/
structure Origin where
  file : String
  text : String
deriving DecidableEq, Inhabited

structure Position where
  origin : Origin
  index : Nat
  line : Nat
  column : Nat
deriving DecidableEq, Inhabited

namespace Position

def start (origin : Origin) : Position := ⟨origin, 0, 0, 0⟩

/-- The place of what was written in no text. -/
def nowhere : Position := start ⟨"", ""⟩

/-- One further on the same line, whatever stands there. -/
def past (p : Position) : Position :=
  { p with index := p.index + 1, column := p.column + 1 }

/-- The position after the character `c`. -/
def advance (p : Position) (c : Char) : Position :=
  if c = '\n' then { p with index := p.index + 1, line := p.line + 1, column := 0 }
  else p.past

/-- The position after all of `cs`. -/
def walk (p : Position) (cs : List Char) : Position := cs.foldl advance p

@[simp] theorem walk_nil (p : Position) : p.walk [] = p := rfl

@[simp] theorem walk_cons (p : Position) (c : Char) (cs : List Char) :
    p.walk (c :: cs) = (p.advance c).walk cs := rfl

theorem walk_append (p : Position) (front back : List Char) :
    p.walk (front ++ back) = (p.walk front).walk back := by
  simp [walk]

@[simp] theorem origin_past (p : Position) : p.past.origin = p.origin := rfl

@[simp] theorem index_past (p : Position) : p.past.index = p.index + 1 := rfl

@[simp] theorem origin_advance (p : Position) (c : Char) : (p.advance c).origin = p.origin := by
  unfold advance
  split <;> rfl

@[simp] theorem index_advance (p : Position) (c : Char) : (p.advance c).index = p.index + 1 := by
  unfold advance
  split <;> rfl

@[simp] theorem origin_walk (p : Position) (cs : List Char) : (p.walk cs).origin = p.origin := by
  induction cs generalizing p with
  | nil => rfl
  | cons c cs ih => simp [ih]

@[simp] theorem index_walk (p : Position) (cs : List Char) :
    (p.walk cs).index = p.index + cs.length := by
  induction cs generalizing p with
  | nil => simp
  | cons c cs ih => simp [ih]; omega

end Position

end SceneScript
