import SceneScript.Proofs.Ebnf.Derivations
import SceneScript.Proofs.Ebnf.Predictive
import SceneScript.Proofs.Parse.Soundness

/-!
The parser by precedence accepts the documented grammar and returns the meaning of the only
derivation in the refined one.
-/

namespace SceneScript

open Ebnf

/-- Where a derivation has the tokens of a text, the parser returns what it stands for. -/
theorem parse_of_refined {origin : Origin} {ts : List Token} {stop : Position}
    (scanned : TokenStream.ofOrigin origin = ⟨ts, .finished stop⟩) {d : Tree}
    (valid : d.Valid refined) (isWhole : d.symbol = .phrase .statements) (tokens : d.tokens = ts) :
    ∃ p, d.program? origin = some p ∧ parse origin = .ok p := by
  obtain ⟨q, meaning, stands⟩ := stands_of_refined valid
  rw [isWhole, tokens] at stands
  obtain ⟨body, rfl, statements⟩ := statements_of_stands stands
  refine ⟨.ofBody origin body, ?_, ?_⟩
  · rw [Tree.program?, meaning]
  · exact parse_eq_ok_iff.mpr ⟨ts, stop, body, scanned, statements, rfl⟩

theorem parse_ok_iff_derives {origin : Origin} {ts : List Token} {stop : Position}
    (scanned : TokenStream.ofOrigin origin = ⟨ts, .finished stop⟩) :
    (∃ p, parse origin = .ok p) ↔ Derives refined .statements ts := by
  rw [refined_derives_iff]
  constructor
  · rintro ⟨p, parsed⟩
    obtain ⟨us, stop', body, scanned', statements, -⟩ := parse_eq_ok_iff.mp parsed
    rw [scanned] at scanned'
    cases scanned'
    exact ⟨body, statements⟩
  · rintro ⟨body, statements⟩
    exact ⟨_, parse_eq_ok_iff.mpr ⟨ts, stop, body, scanned, statements, rfl⟩⟩

/-- A text without lexical fault is accepted exactly if the documented grammar derives its tokens.
    The refined grammar derives the same tokens, each in one way, and the result is the meaning of
    that derivation. -/
theorem parse_accepts_documented_grammar {origin : Origin} {ts : List Token} {stop : Position}
    (scanned : TokenStream.ofOrigin origin = ⟨ts, .finished stop⟩) :
    ((∃ p, parse origin = .ok p) ↔ Derives documented .statements ts) ∧
      (∀ us, Derives documented .statements us ↔ Derives refined .statements us) ∧
      Unambiguous refined ∧
      ∀ d : Tree, d.Valid refined → d.symbol = .phrase .statements → d.tokens = ts →
        ∃ p, d.program? origin = some p ∧ parse origin = .ok p := by
  refine ⟨?_, documented_iff_refined, ?_, ?_⟩
  · rw [documented_iff_refined]
    exact parse_ok_iff_derives scanned
  · exact Outlook.unambiguous_of_predicts outlook_predicts
  · intro d valid isWhole tokens
    exact parse_of_refined scanned valid isWhole tokens

theorem documented_grammar_derives_powers :
    ∃ ts stop, TokenStream.ofOrigin ⟨"powers", "2^-3^4; !(a) < 1;"⟩ = ⟨ts, .finished stop⟩ ∧
      Derives documented .statements ts := by
  have scanned : TokenStream.ofOrigin ⟨"powers", "2^-3^4; !(a) < 1;"⟩ =
      ⟨(TokenStream.ofOrigin ⟨"powers", "2^-3^4; !(a) < 1;"⟩).tokens,
        .finished ⟨⟨"powers", "2^-3^4; !(a) < 1;"⟩, 17, 0, 17⟩⟩ := by decide +kernel
  have accepted : (parse ⟨"powers", "2^-3^4; !(a) < 1;"⟩).toBool = true := by decide +kernel
  have parsed : ∃ p, parse ⟨"powers", "2^-3^4; !(a) < 1;"⟩ = .ok p := by
    cases result : parse ⟨"powers", "2^-3^4; !(a) < 1;"⟩ with
    | ok p => exact ⟨p, rfl⟩
    | error fault =>
      rw [result] at accepted
      cases accepted
  exact ⟨_, _, scanned, (parse_accepts_documented_grammar scanned).1.mp parsed⟩

end SceneScript
