import SceneScript.Proofs.Parse.MapPlaces
import SceneScript.Proofs.Parse.Shape
import SceneScript.Proofs.Token.Concatenation

/-!
Parsing a text that stands on the lines behind another one. Between statements the parser remembers
nothing but the statements, so it goes on as if the text stood alone; whatever it finds is shifted.
-/

namespace SceneScript

namespace Shift

variable (s : Shift)

mutual

theorem node_eq_mapPlaces : ∀ n : Node, s.node n = n.mapPlaces s.place
  | .program body _ => by rw [node, Node.mapPlaces, nodes_eq_mapPlaces body]; rfl
  | .identifier .. | .number .. | .string .. | .blank .. => rfl
  | .binary left _ right _ => by
    rw [node, Node.mapPlaces, node_eq_mapPlaces left, node_eq_mapPlaces right]
    rfl
  | .unary _ operand _ => by rw [node, Node.mapPlaces, node_eq_mapPlaces operand]; rfl
  | .list elements _ => by rw [node, Node.mapPlaces, nodes_eq_mapPlaces elements]; rfl
  | .call callee args _ => by
    rw [node, Node.mapPlaces, node_eq_mapPlaces callee, nodes_eq_mapPlaces args]
    rfl
  | .assign _ value _ => by rw [node, Node.mapPlaces, node_eq_mapPlaces value]; rfl

theorem nodes_eq_mapPlaces : ∀ ns : List Node, s.nodes ns = Node.mapPlacesAll s.place ns
  | [] => rfl
  | n :: ns => by rw [nodes, Node.mapPlacesAll, node_eq_mapPlaces n, nodes_eq_mapPlaces ns]

end

def fault : ParseFault → ParseFault
  | .lexical f => .lexical (s.lexical f)
  | .grammatical f => .grammatical ⟨f.expectation, s.span f.span⟩

theorem fault_eq_mapPlaces (f : ParseFault) : s.fault f = f.mapPlaces s.place := by
  cases f <;> rfl

theorem nodes_reverse (ns : List Node) : s.nodes ns.reverse = (s.nodes ns).reverse := by
  simp only [nodes_eq_map, List.map_reverse]

theorem finish_mapPlaces (whole origin : Origin) (before : List Node) (p : Parser)
    (ending : Ending) :
    (p.mapPlaces s.place before).finish whole (s.ending ending) =
      match p.finish origin ending with
      | .ok q => .ok (.ofBody whole (before.reverse ++ s.nodes q.body))
      | .error fault => .error (s.fault fault) := by
  cases ending with
  | fault f => rfl
  | finished position =>
    simp only [Parser.finish, Shift.ending, Parser.missing?_mapPlaces]
    cases p.missing? with
    | none =>
      simp only [Parser.mapPlaces, List.reverse_append, Program.body_ofBody, nodes_reverse,
        ← nodes_eq_mapPlaces]
    | some expectation => simp only [← position_past]; rfl

end Shift

/-- A text behind another one that is parsed: the statements of both, or the fault of the second. -/
theorem parse_concat {file first : String} {p : Program}
    (accepted : parse ⟨file, first⟩ = .ok p) (second : String) :
    let whole : Origin := ⟨file, first ++ "\n" ++ second⟩
    let ahead : Shift := ⟨whole, 0, 0⟩
    let behind : Shift := ⟨whole, first.length + 1, first.toList.count '\n' + 1⟩
    parse whole =
      match parse ⟨file, second⟩ with
      | .ok q => .ok (.ofBody whole (ahead.nodes p.body ++ behind.nodes q.body))
      | .error fault => .error (behind.fault fault) := by
  intro whole ahead behind
  obtain ⟨ts, stop, body, scanned, statements, rfl⟩ := parse_eq_ok_iff.mp accepted
  have stream := TokenStream.ofOrigin_concat scanned second
  -- At the line break the parser is as at the start, apart from the statements behind it.
  have front : Parser.initial.run (ts.map ahead.token) =
      .ok (Parser.initial.mapPlaces behind.place (ahead.nodes body).reverse) := by
    have ran := Parser.run_mapPlaces ahead.place [] .initial ts
    rw [Parser.run_statements statements] at ran
    simp only [Parser.mapResult, Parser.mapPlaces, List.append_nil, ← ahead.nodes_eq_mapPlaces,
      Shift.nodes_reverse] at ran
    exact ran
  have back := Parser.run_mapPlaces behind.place (ahead.nodes body).reverse .initial
    (TokenStream.ofOrigin ⟨file, second⟩).tokens
  have ran : Parser.initial.run (TokenStream.ofOrigin whole).tokens =
      Parser.mapResult behind.place (ahead.nodes body).reverse
        (Parser.initial.run (TokenStream.ofOrigin ⟨file, second⟩).tokens) := by
    rw [stream, Parser.run_append_of_ok _ front]
    exact back
  have ending : (TokenStream.ofOrigin whole).ending =
      behind.ending (TokenStream.ofOrigin ⟨file, second⟩).ending := by
    rw [stream]
    rfl
  unfold parse
  change (Parser.initial.run _ >>= fun q => q.finish whole _) =
    match (Parser.initial.run _ >>= fun q => q.finish ⟨file, second⟩ _) with
    | .ok q => .ok _
    | .error fault => .error _
  rw [ran, ending]
  cases Parser.initial.run (TokenStream.ofOrigin ⟨file, second⟩).tokens with
  | error fault => exact congrArg Except.error (behind.fault_eq_mapPlaces fault).symm
  | ok q =>
    have finished := behind.finish_mapPlaces whole ⟨file, second⟩ (ahead.nodes body).reverse q
      (TokenStream.ofOrigin ⟨file, second⟩).ending
    rw [List.reverse_reverse] at finished
    rw [Program.body_ofBody]
    exact finished

end SceneScript
