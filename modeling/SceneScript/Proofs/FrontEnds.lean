import SceneScript.Eval.Run
import SceneScript.Node.Json
import SceneScript.Proofs.Grammar.Language
import SceneScript.Proofs.Grammar.Spelling
import SceneScript.Proofs.Parse.Soundness
import SceneScript.Proofs.Token.Lexemes

/-!
The two parsers can stand for each other.
-/

namespace SceneScript

open Grammar (LexemeStream Proper)

theorem tokens_finished_iff {origin : Origin} {ts : List Token} :
    (∃ stop, TokenStream.ofOrigin origin = ⟨ts, .finished stop⟩) ↔
      ∃ ls, LexemeStream.ofOrigin origin = ⟨ls, none⟩ ∧
        ts = ls.map (·.toToken (.ofOrigin origin)) := by
  obtain ⟨same, -⟩ := TokenStream.ofOrigin_eq_toTokens origin
  rw [same]
  obtain ⟨ls, fault⟩ := LexemeStream.ofOrigin origin
  cases fault with
  | none => simp [LexemeStream.toTokens, eq_comm]
  | some fault => simp [LexemeStream.toTokens]

theorem grammar_parse_eq_ok_iff {origin : Origin} {p : Program} :
    Grammar.parse origin = .ok p ↔ parse origin = .ok p := by
  obtain ⟨-, proper⟩ := TokenStream.ofOrigin_eq_toTokens origin
  rw [Grammar.parse_eq_ok_iff, parse_eq_ok_iff]
  constructor
  · rintro ⟨d, valid, isStart, stream, program⟩
    rw [stream] at proper
    obtain ⟨body, statements, program'⟩ := Grammar.program_of_valid valid proper isStart
    obtain ⟨stop, tokens⟩ := tokens_finished_iff.mpr ⟨d.lexemes, stream, rfl⟩
    exact ⟨_, stop, body, tokens, statements, Option.some.inj (program.symm.trans program')⟩
  · rintro ⟨ts, stop, body, tokens, statements, rfl⟩
    obtain ⟨ls, stream, rfl⟩ := tokens_finished_iff.mp ⟨stop, tokens⟩
    rw [stream] at proper
    obtain ⟨d, valid, isStart, rfl⟩ := Grammar.exists_derivation proper statements
    obtain ⟨body', statements', program⟩ := Grammar.program_of_valid valid proper isStart
    rw [statements'.unique statements] at program
    exact ⟨d, valid, isStart, stream, program⟩

namespace FrontEnd

/-- What running a text does: how the run ends, with what it has printed, all tables and all values
    then. Nothing where the text is no program. -/
def run (f : FrontEnd) (host : Host) (builtins : List Builtin) (m : Machine)
    (origin : Origin) : Option (EStateM.Result Failure Machine Unit) :=
  let (context, m) := m.programContext builtins
  (f.parse origin).toOption.map fun p => (EvalM.runProgram host context p).run m

/-- Both parsers accept the same texts and give the same trees with the same places, so that writing
    and running a program do not depend on the choice. -/
theorem interchangeable (origin : Origin) :
    (∀ p, precedence.parse origin = .ok p ↔ grammar.parse origin = .ok p) ∧
    (precedence.parse origin).toOption.map Program.toJson =
      (grammar.parse origin).toOption.map Program.toJson ∧
    ∀ host builtins m,
      precedence.run host builtins m origin = grammar.run host builtins m origin := by
  have agree (p : Program) : precedence.parse origin = .ok p ↔ grammar.parse origin = .ok p :=
    grammar_parse_eq_ok_iff.symm
  have same : (precedence.parse origin).toOption = (grammar.parse origin).toOption := by
    cases parsed : precedence.parse origin with
    | ok p => rw [(agree p).mp parsed]
    | error fault =>
      cases parsed' : grammar.parse origin with
      | ok p => cases parsed.symm.trans ((agree p).mpr parsed')
      | error fault => rfl
  refine ⟨agree, by rw [same], fun host builtins m => ?_⟩
  rw [run, run, same]

end FrontEnd

end SceneScript
