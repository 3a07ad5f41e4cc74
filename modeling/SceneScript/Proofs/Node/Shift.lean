import SceneScript.Node.Basic
import SceneScript.Proofs.Source.Lines

/-!
What becomes of places when their text becomes part of another one: they are counted from further
ahead and refer to the whole.
-/

namespace SceneScript

/-- A text starts on a new line of another one, behind so many characters and lines. -/
structure Shift where
  origin : Origin
  index : Nat
  line : Nat

namespace Shift

def position (s : Shift) (p : Position) : Position :=
  ⟨s.origin, p.index + s.index, p.line + s.line, p.column⟩

def place (s : Shift) : Place → Place
  | .position p => .position (s.position p)
  | .note n => .note n

def span (s : Shift) (span : Span) : Span := ⟨s.place span.start, s.place span.stop⟩

def token (s : Shift) (t : Token) : Token := { t with span := s.span t.span }

mutual

def node (s : Shift) : Node → Node
  | .program body span => .program (nodes s body) (s.span span)
  | .identifier t span => .identifier (s.token t) (s.span span)
  | .number t span => .number (s.token t) (s.span span)
  | .string t span => .string (s.token t) (s.span span)
  | .binary left op right span =>
    .binary (node s left) (s.token op) (node s right) (s.span span)
  | .unary op operand span => .unary (s.token op) (node s operand) (s.span span)
  | .list elements span => .list (nodes s elements) (s.span span)
  | .call callee args span => .call (node s callee) (nodes s args) (s.span span)
  | .assign name value span => .assign (s.token name) (node s value) (s.span span)
  | .blank start stop =>
    .blank (some (s.place (start.getD .nowhere))) (some (s.place (stop.getD .nowhere)))

def nodes (s : Shift) : List Node → List Node
  | [] => []
  | n :: ns => node s n :: nodes s ns

end

variable (s : Shift)

theorem nodes_eq_map (ns : List Node) : s.nodes ns = ns.map s.node := by
  induction ns with
  | nil => rfl
  | cons n ns ih => rw [nodes, List.map_cons, ih]

theorem position_advance (p : Position) (c : Char) :
    s.position (p.advance c) = (s.position p).advance c := by
  unfold Position.advance
  split
  · simp [position, Nat.add_right_comm]
  · simp [position, Position.past, Nat.add_right_comm]

theorem position_past (p : Position) : s.position p.past = (s.position p).past := by
  simp [position, Position.past, Nat.add_right_comm]

theorem position_walk (p : Position) (cs : List Char) :
    s.position (p.walk cs) = (s.position p).walk cs := by
  induction cs generalizing p with
  | nil => rfl
  | cons c cs ih => rw [Position.walk_cons, Position.walk_cons, ih, position_advance]

@[simp] theorem value_token (t : Token) : (s.token t).value = t.value := rfl

end Shift

/-- The start of a text that stands behind another one and a line break. -/
theorem Shift.position_start (whole part : Origin) (front : List Char) :
    Shift.position ⟨whole, front.length + 1, front.count '\n' + 1⟩ (.start part) =
      ((Position.start whole).walk front).advance '\n' := by
  have origin := Position.origin_walk (.start whole) front
  have index := Position.index_walk (.start whole) front
  have line := Position.line_walk (.start whole) front
  simp only [Position.start, Nat.zero_add] at origin index line
  simp only [position, Position.start, Position.advance, if_true, origin, index, line, Nat.zero_add]

end SceneScript
