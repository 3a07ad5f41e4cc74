import SceneScript.Proofs.Parse.Shape
import SceneScript.Proofs.Parse.MapPlaces
import SceneScript.Proofs.Token.Spacing

/-!
Layout does not matter. Texts with the same words are parsed to trees that differ in places only,
or refused for the same reason; spacing at the ends of tokens changes no word.
-/

namespace SceneScript

def Token.unplaced : Token → Token := mapPlaces fun _ => .nowhere

/-- The tree without its places. -/
def Node.unplaced : Node → Node := mapPlaces fun _ => .nowhere

/-- Both are parsed, to trees that differ in places only, or both are refused, with the same name
    and the same details. -/
inductive SameOutcome : Except ParseFault Program → Except ParseFault Program → Prop
  | parsed {p q : Program} (same : p.toNode.unplaced = q.toNode.unplaced) :
    SameOutcome (.ok p) (.ok q)
  | refused {f g : ParseFault} (name : f.report.name = g.report.name)
    (details : f.report.details = g.report.details) : SameOutcome (.error f) (.error g)

theorem Token.map_unplaced {ts us : List Token} (same : ts.map Token.word = us.map Token.word) :
    ts.map Token.unplaced = us.map Token.unplaced := by
  have ofWord : Token.unplaced =
      (fun w : TokenKind × Json => Token.mk w.1 w.2 ⟨.nowhere, .nowhere⟩) ∘ Token.word := rfl
  rw [ofWord, ← List.map_map, same, List.map_map]

theorem ParseFault.report_mapPlaces (place : Place → Place) (fault : ParseFault) :
    (fault.mapPlaces place).report.name = fault.report.name ∧
      (fault.mapPlaces place).report.details = fault.report.details := by
  cases fault with
  | lexical f => exact ⟨rfl, rfl⟩
  | grammatical f => exact ⟨rfl, rfl⟩

namespace SameOutcome

theorem of_faults {f g : ParseFault} {place : Place → Place}
    (same : f.mapPlaces place = g.mapPlaces place) : SameOutcome (.error f) (.error g) := by
  obtain ⟨name, details⟩ := f.report_mapPlaces place
  obtain ⟨name', details'⟩ := g.report_mapPlaces place
  rw [same] at name details
  exact .refused (name.symm.trans name') (details.symm.trans details')

/-- Parsers that differ in places only find the same at the ends of their texts. -/
theorem of_finish {p q : Parser}
    (same : p.mapPlaces (fun _ => .nowhere) [] = q.mapPlaces (fun _ => .nowhere) [])
    (a b : Origin) (stop stop' : Position) :
    SameOutcome (p.finish a (.finished stop)) (q.finish b (.finished stop')) := by
  have missing : p.missing? = q.missing? := by
    rw [← p.missing?_mapPlaces (fun _ => .nowhere) [], same, q.missing?_mapPlaces]
  have statements := congrArg Parser.statements same
  simp only [Parser.mapPlaces, List.append_nil, Node.mapPlacesAll_eq_map] at statements
  simp only [Parser.finish, missing]
  cases q.missing? with
  | some expectation => exact .refused rfl rfl
  | none =>
    refine .parsed ?_
    simp only [Program.toNode, Program.body_ofBody, Node.unplaced, Node.mapPlaces,
      Node.mapPlacesAll_eq_map, List.map_reverse, statements]
    rfl

/-- The words of a text decide what is found. -/
theorem of_words {a b : Origin} {stop stop' : Position}
    (finished : (TokenStream.ofOrigin a).ending = .finished stop)
    (finished' : (TokenStream.ofOrigin b).ending = .finished stop')
    (same : (TokenStream.ofOrigin a).tokens.map Token.word =
      (TokenStream.ofOrigin b).tokens.map Token.word) : SameOutcome (parse a) (parse b) := by
  have runs : Parser.mapResult (fun _ => .nowhere) []
        (Parser.initial.run (TokenStream.ofOrigin a).tokens) =
      Parser.mapResult (fun _ => .nowhere) []
        (Parser.initial.run (TokenStream.ofOrigin b).tokens) := by
    rw [← Parser.run_mapPlaces, ← Parser.run_mapPlaces]
    exact congrArg _ (Token.map_unplaced same)
  cases ran : Parser.initial.run (TokenStream.ofOrigin a).tokens with
  | error f =>
    cases ran' : Parser.initial.run (TokenStream.ofOrigin b).tokens with
    | error g =>
      rw [ran, ran'] at runs
      rw [parse_eq_error_of_run ran, parse_eq_error_of_run ran']
      exact of_faults (Except.error.inj runs)
    | ok q => rw [ran, ran'] at runs; cases runs
  | ok p =>
    cases ran' : Parser.initial.run (TokenStream.ofOrigin b).tokens with
    | error g => rw [ran, ran'] at runs; cases runs
    | ok q =>
      rw [ran, ran'] at runs
      rw [parse_eq_of_run ran, parse_eq_of_run ran', finished, finished']
      exact of_finish (Except.ok.inj runs) a b stop stop'

end SameOutcome

/-- Spacing at either end of a token leaves the words of the text as they are, and with them the
    tree that the text is parsed to or the reason why it is refused. -/
theorem layout_does_not_matter {origin : Origin} {stop border : Position} {t : Token}
    {gap : List Char} (finished : (TokenStream.ofOrigin origin).ending = .finished stop)
    (member : t ∈ (TokenStream.ofOrigin origin).tokens)
    (atBorder : t.span.start = border ∨ t.span.stop = border) (spacing : Spacing gap) :
    let spaced := origin.insert border.index gap
    (∃ stop', (TokenStream.ofOrigin spaced).ending = .finished stop') ∧
      (TokenStream.ofOrigin spaced).tokens.map Token.word =
        (TokenStream.ofOrigin origin).tokens.map Token.word ∧
      SameOutcome (parse spaced) (parse origin) := by
  intro spaced
  obtain ⟨⟨stop', finished'⟩, same⟩ := TokenStream.ofOrigin_insert finished member atBorder spacing
  exact ⟨⟨stop', finished'⟩, same, .of_words finished' finished same⟩

/-- A comment between a numeral and the operator right behind it. -/
theorem comment_behind_numeral_does_not_matter :
    Spacing "# half\n".toList ∧
      (TokenStream.ofOrigin ⟨"half", "let a=.5# half\n<=b;"⟩).tokens.map Token.word =
        (TokenStream.ofOrigin ⟨"half", "let a=.5<=b;"⟩).tokens.map Token.word ∧
      SameOutcome (parse ⟨"half", "let a=.5# half\n<=b;"⟩) (parse ⟨"half", "let a=.5<=b;"⟩) := by
  have spacing : Spacing "# half\n".toList := .inr ⟨" half".toList, by decide, by decide⟩
  have finished : (TokenStream.ofOrigin ⟨"half", "let a=.5<=b;"⟩).ending =
      .finished ⟨⟨"half", "let a=.5<=b;"⟩, 12, 0, 12⟩ := by decide +kernel
  have member : ⟨.number, .string "0.5", ⟨Position.mk ⟨"half", "let a=.5<=b;"⟩ 6 0 6,
      Position.mk ⟨"half", "let a=.5<=b;"⟩ 8 0 8⟩⟩ ∈
        (TokenStream.ofOrigin ⟨"half", "let a=.5<=b;"⟩).tokens := by decide +kernel
  exact ⟨spacing, (layout_does_not_matter finished member (.inr rfl) spacing).2⟩

end SceneScript
