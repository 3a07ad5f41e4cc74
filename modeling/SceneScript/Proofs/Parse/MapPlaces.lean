import SceneScript.Proofs.Parse.Completeness

/-!
The parser by precedence looks at the kinds and the values of tokens and never at their places.
Given other places, it takes the same steps and finds the same, with those places in it.
-/

namespace SceneScript

def Span.mapPlaces (f : Place → Place) (span : Span) : Span := ⟨f span.start, f span.stop⟩

def Token.mapPlaces (f : Place → Place) (t : Token) : Token :=
  { t with span := t.span.mapPlaces f }

@[simp] theorem Token.kind_mapPlaces (f : Place → Place) (t : Token) :
    (t.mapPlaces f).kind = t.kind := rfl

@[simp] theorem Token.value_mapPlaces (f : Place → Place) (t : Token) :
    (t.mapPlaces f).value = t.value := rfl

namespace Node

mutual

def mapPlaces (f : Place → Place) : Node → Node
  | .program body span => .program (mapPlacesAll f body) (span.mapPlaces f)
  | .identifier t span => .identifier (t.mapPlaces f) (span.mapPlaces f)
  | .number t span => .number (t.mapPlaces f) (span.mapPlaces f)
  | .string t span => .string (t.mapPlaces f) (span.mapPlaces f)
  | .binary left op right span =>
    .binary (mapPlaces f left) (op.mapPlaces f) (mapPlaces f right) (span.mapPlaces f)
  | .unary op operand span => .unary (op.mapPlaces f) (mapPlaces f operand) (span.mapPlaces f)
  | .list elements span => .list (mapPlacesAll f elements) (span.mapPlaces f)
  | .call callee args span =>
    .call (mapPlaces f callee) (mapPlacesAll f args) (span.mapPlaces f)
  | .assign name value span =>
    .assign (name.mapPlaces f) (mapPlaces f value) (span.mapPlaces f)
  | .blank start stop => .blank (some (f (start.getD .nowhere))) (some (f (stop.getD .nowhere)))

def mapPlacesAll (f : Place → Place) : List Node → List Node
  | [] => []
  | n :: ns => mapPlaces f n :: mapPlacesAll f ns

end

variable (f : Place → Place)

theorem mapPlacesAll_eq_map (ns : List Node) : mapPlacesAll f ns = ns.map (mapPlaces f) := by
  induction ns with
  | nil => rfl
  | cons n ns ih => rw [mapPlacesAll, List.map_cons, ih]

@[simp] theorem span_mapPlaces (n : Node) : (n.mapPlaces f).span = n.span.mapPlaces f := by
  cases n <;> rfl

theorem mapPlaces_combine (left : Node) (op : Token) (right : Node) :
    (combine left op right).mapPlaces f =
      combine (left.mapPlaces f) (op.mapPlaces f) (right.mapPlaces f) := by
  simp only [combine, mapPlaces, span_mapPlaces]
  rfl

theorem mapPlaces_apply (op : Token) (operand : Node) :
    (apply op operand).mapPlaces f = apply (op.mapPlaces f) (operand.mapPlaces f) := by
  simp only [apply, mapPlaces, span_mapPlaces]
  rfl

theorem mapPlaces_bind (name : Token) (value : Node) :
    (bind name value).mapPlaces f = bind (name.mapPlaces f) (value.mapPlaces f) := by
  simp only [bind, mapPlaces, span_mapPlaces]
  rfl

theorem mapPlaces_invoke (callee : Node) (args : List Node) (closer : Token) :
    (invoke callee args closer).mapPlaces f =
      invoke (callee.mapPlaces f) (mapPlacesAll f args) (closer.mapPlaces f) := by
  simp only [invoke, mapPlaces, span_mapPlaces]
  rfl

theorem mapPlaces_enumerate (opener : Token) (elements : List Node) (closer : Token) :
    (enumerate opener elements closer).mapPlaces f =
      enumerate (opener.mapPlaces f) (mapPlacesAll f elements) (closer.mapPlaces f) := by
  simp only [enumerate, mapPlaces]
  rfl

end Node

namespace Frame

variable (f : Place → Place)

def mapPlaces : Frame → Frame
  | .assign name => .assign (name.mapPlaces f)
  | .binary level left op => .binary level (left.mapPlaces f) (op.mapPlaces f)
  | .negate op => .negate (op.mapPlaces f)
  | .sign op => .sign (op.mapPlaces f)
  | .group => .group
  | .call callee args => .call (callee.mapPlaces f) (Node.mapPlacesAll f args)
  | .list opener elements => .list (opener.mapPlaces f) (Node.mapPlacesAll f elements)

theorem bracket?_mapPlaces (frame : Frame) : (frame.mapPlaces f).bracket? = frame.bracket? := by
  cases frame <;> rfl

theorem yieldsTo_mapPlaces (frame : Frame) (level : Level) :
    (frame.mapPlaces f).yieldsTo level = frame.yieldsTo level := by
  cases frame <;> rfl

theorem admitsNegation_mapPlaces (frame : Frame) :
    (frame.mapPlaces f).admitsNegation = frame.admitsNegation := by
  cases frame <;> rfl

theorem admitsAssignment_mapPlaces (frame : Frame) :
    (frame.mapPlaces f).admitsAssignment = frame.admitsAssignment := by
  cases frame <;> rfl

theorem complete?_mapPlaces (frame : Frame) (operand : Node) :
    (frame.mapPlaces f).complete? (operand.mapPlaces f) =
      (frame.complete? operand).map (Node.mapPlaces f) := by
  cases frame <;>
    simp only [mapPlaces, complete?, Option.map_some, Option.map_none, Node.mapPlaces_bind,
      Node.mapPlaces_combine, Node.mapPlaces_apply]

end Frame

section Stack

variable (f : Place → Place)

theorem reduceWhile_mapPlaces (ends : Frame → Bool)
    (same : ∀ frame, ends (frame.mapPlaces f) = ends frame) (operand : Node)
    (frames : List Frame) :
    reduceWhile ends (operand.mapPlaces f) (frames.map (Frame.mapPlaces f)) =
      ((reduceWhile ends operand frames).1.mapPlaces f,
        (reduceWhile ends operand frames).2.map (Frame.mapPlaces f)) := by
  induction frames generalizing operand with
  | nil => rfl
  | cons frame frames ih =>
    simp only [List.map_cons, reduceWhile, Frame.complete?_mapPlaces, same]
    cases frame.complete? operand with
    | none => rfl
    | some node =>
      simp only [Option.map_some]
      split
      · exact ih node
      · rfl

theorem openBracket?_mapPlaces (frames : List Frame) :
    openBracket? (frames.map (Frame.mapPlaces f)) = openBracket? frames := by
  simp only [openBracket?, List.findSome?_map]
  congr 1
  funext frame
  exact frame.bracket?_mapPlaces f

end Stack

def Focus.mapPlaces (f : Place → Place) : Focus → Focus
  | .statement => .statement
  | .operand => .operand
  | .item => .item
  | .name => .name
  | .equals own => .equals (own.mapPlaces f)
  | .operator node callable => .operator (node.mapPlaces f) callable

def ParseFault.mapPlaces (f : Place → Place) : ParseFault → ParseFault
  | .lexical fault => .lexical { fault with span := fault.span.mapPlaces f }
  | .grammatical fault => .grammatical ⟨fault.expectation, fault.span.mapPlaces f⟩

namespace Parser

variable (f : Place → Place) (before : List Node)

/-- The parser with other places, behind statements that were finished before. -/
def mapPlaces (p : Parser) : Parser :=
  ⟨Node.mapPlacesAll f p.statements ++ before, p.frames.map (Frame.mapPlaces f),
    p.focus.mapPlaces f⟩

def mapResult : Except ParseFault Parser → Except ParseFault Parser
  | .ok p => .ok (p.mapPlaces f before)
  | .error fault => .error (fault.mapPlaces f)

theorem ite_mapResult {c : Prop} [Decidable c] {x y x' y' : Except ParseFault Parser}
    (yes : x = mapResult f before x') (no : y = mapResult f before y') :
    (if c then x else y) = mapResult f before (if c then x' else y') := by
  split
  · exact yes
  · exact no

variable (p : Parser) (t : Token)

theorem startOperand_mapPlaces : (p.mapPlaces f before).startOperand (t.mapPlaces f) =
    mapResult f before (p.startOperand t) := by
  have negation : (p.frames.map (Frame.mapPlaces f)).head?.all Frame.admitsNegation =
      p.frames.head?.all Frame.admitsNegation := by
    cases p.frames with
    | nil => rfl
    | cons frame _ => exact frame.admitsNegation_mapPlaces f
  have assignment : (p.frames.map (Frame.mapPlaces f)).head?.all Frame.admitsAssignment =
      p.frames.head?.all Frame.admitsAssignment := by
    cases p.frames with
    | nil => rfl
    | cons frame _ => exact frame.admitsAssignment_mapPlaces f
  unfold startOperand
  simp only [Token.kind_mapPlaces, Token.value_mapPlaces, mapPlaces, negation, assignment]
  cases t.kind with
  | bang | keyword => exact ite_mapResult f before rfl rfl
  | _ => rfl

theorem endPart_mapPlaces (part : Node) (frames : List Frame) :
    (p.mapPlaces f before).endPart (part.mapPlaces f) (frames.map (Frame.mapPlaces f))
        (t.mapPlaces f) = mapResult f before (p.endPart part frames t) := by
  have parts (ns : List Node) : Node.mapPlacesAll f ns ++ [part.mapPlaces f] =
      Node.mapPlacesAll f (ns ++ [part]) := by
    simp only [Node.mapPlacesAll_eq_map, List.map_append, List.map_cons, List.map_nil]
  unfold endPart
  cases frames with
  | nil =>
    simp only [List.map_nil, Token.kind_mapPlaces, Node.span_mapPlaces]
    exact ite_mapResult f before rfl rfl
  | cons frame frames =>
    cases frame with
    | group => exact ite_mapResult f before rfl rfl
    | call callee ns =>
      simp only [List.map_cons, Frame.mapPlaces, Token.kind_mapPlaces, parts,
        ← Node.mapPlaces_invoke]
      exact ite_mapResult f before rfl (ite_mapResult f before rfl rfl)
    | list opener ns =>
      simp only [List.map_cons, Frame.mapPlaces, Token.kind_mapPlaces, parts,
        ← Node.mapPlaces_enumerate]
      exact ite_mapResult f before rfl (ite_mapResult f before rfl rfl)
    | assign | binary | negate | sign =>
      simp only [List.map_cons, Frame.mapPlaces, Token.kind_mapPlaces, Node.span_mapPlaces]
      exact ite_mapResult f before rfl rfl

theorem afterOperand_mapPlaces (operand : Node) (callable : Bool) :
    (p.mapPlaces f before).afterOperand (operand.mapPlaces f) callable (t.mapPlaces f) =
      mapResult f before (p.afterOperand operand callable t) := by
  have level : Level.ofToken? (t.mapPlaces f) = Level.ofToken? t := rfl
  have frames : (p.mapPlaces f before).frames = p.frames.map (Frame.mapPlaces f) := rfl
  unfold afterOperand
  rw [level, frames]
  refine ite_mapResult f before rfl ?_
  cases Level.ofToken? t with
  | some level =>
    simp only [reduceWhile_mapPlaces f (·.yieldsTo level) fun frame =>
      frame.yieldsTo_mapPlaces f level]
    rfl
  | none =>
    simp only [reduceWhile_mapPlaces f (fun _ => true) fun _ => rfl]
    exact endPart_mapPlaces f before p t _ _

theorem startItem_mapPlaces : (p.mapPlaces f before).startItem (t.mapPlaces f) =
    mapResult f before (p.startItem t) := by
  have operand := startOperand_mapPlaces f before p t
  obtain ⟨statements, frames, focus⟩ := p
  unfold startItem
  cases frames with
  | nil => exact operand
  | cons frame frames =>
    cases frame with
    | call callee ns =>
      simp only [mapPlaces, List.map_cons, Frame.mapPlaces, Token.kind_mapPlaces,
        ← Node.mapPlaces_invoke] at operand ⊢
      exact ite_mapResult f before rfl operand
    | list opener ns =>
      simp only [mapPlaces, List.map_cons, Frame.mapPlaces, Token.kind_mapPlaces,
        ← Node.mapPlaces_enumerate] at operand ⊢
      exact ite_mapResult f before rfl operand
    | assign | binary | negate | sign | group => exact operand

theorem step_mapPlaces : (p.mapPlaces f before).step (t.mapPlaces f) =
    mapResult f before (p.step t) := by
  have operand := startOperand_mapPlaces f before p t
  have item := startItem_mapPlaces f before p t
  have after := afterOperand_mapPlaces f before p t
  obtain ⟨statements, frames, focus⟩ := p
  cases focus with
  | statement => exact ite_mapResult f before rfl operand
  | operand => exact operand
  | item => exact item
  | name => exact ite_mapResult f before rfl rfl
  | equals name => exact ite_mapResult f before rfl rfl
  | operator node callable => exact after node callable

theorem run_mapPlaces (ts : List Token) : (p.mapPlaces f before).run (ts.map (Token.mapPlaces f)) =
    mapResult f before (p.run ts) := by
  induction ts generalizing p with
  | nil => rfl
  | cons t ts ih =>
    rw [List.map_cons, run_cons, run_cons, step_mapPlaces]
    cases p.step t with
    | error fault => rfl
    | ok q => exact ih q

theorem missing?_mapPlaces : (p.mapPlaces f before).missing? = p.missing? := by
  obtain ⟨statements, frames, focus⟩ := p
  cases focus with
  | operator operand callable =>
    simp only [missing?, mapPlaces, Focus.mapPlaces, openBracket?_mapPlaces]
  | _ => rfl

end Parser

end SceneScript
