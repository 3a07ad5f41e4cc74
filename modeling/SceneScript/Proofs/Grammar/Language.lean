import SceneScript.Proofs.Grammar.Acceptance
import SceneScript.Proofs.Grammar.Soundness
import SceneScript.Proofs.Grammar.Validation

/-!
The parser by grammar returns the meanings of derivations: of a text whose lexemes have one, and
of no other.
-/

namespace SceneScript.Grammar

theorem tables_checked : (Tables.ofRules rules).checked = true := by decide +kernel

theorem automaton_certificate :
    ∃ vanishing first items, Certificate automaton vanishing first items := by
  have certificate := Tables.certificate tables_checked
  rw [Tables.automaton_ofRules] at certificate
  exact ⟨_, _, _, certificate⟩

theorem automaton_rules : automaton.rules.toList = rules := List.toList_toArray

variable {m : Automaton} {final : Stack → Prop} {ls : List Lexeme} {stack : Stack}

theorem Stack.Settles.settle {t : Terminal} {settled : Stack} {target : Nat}
    (settles : Settles m t stack settled target) :
    stack.settle m t stack.patience = .ok (settled, target) :=
  settles _ stack.measure_lt_patience

theorem Accepts.run (accepts : Accepts m final ls stack) (lines : LineIndex) :
    ∃ last settled target, ls.foldlM (step m lines) stack = .ok last ∧
      last.settle m .endOfText last.patience = .ok (settled, target) ∧ final settled := by
  induction ls generalizing stack with
  | nil =>
    obtain ⟨settled, target, settles, done⟩ := accepts
    exact ⟨stack, settled, target, rfl, settles.settle, done⟩
  | cons l ls ih =>
    obtain ⟨settled, target, settles, later⟩ := accepts
    obtain ⟨last, settled', target', ran, ends, done⟩ := ih later
    have stepped : step m lines stack l = .ok ((target, .leaf l) :: settled) := by
      rw [step, settles.settle]
    refine ⟨last, settled', target', ?_, ends, done⟩
    rw [List.foldlM_cons, stepped]
    exact ran

/-- A text is parsed exactly if its lexemes have a derivation, and as what that stands for. -/
theorem parse_eq_ok_iff {origin : Origin} {p : Program} :
    parse origin = .ok p ↔ ∃ d : Derivation, d.Valid rules ∧ d.symbol = .nonterminal .start ∧
      LexemeStream.ofOrigin origin = ⟨d.lexemes, none⟩ ∧
      d.program? (.ofOrigin origin) = some p := by
  obtain ⟨vanishing, first, items, certificate⟩ := automaton_certificate
  constructor
  · intro parsed
    simp only [parse] at parsed
    cases ran : (LexemeStream.ofOrigin origin).lexemes.foldlM
        (step automaton (.ofOrigin origin)) [] with
    | error fault =>
      rw [ran] at parsed
      cases parsed
    | ok last =>
      simp only [ran, bind, Except.bind] at parsed
      split at parsed
      · cases parsed
      · rename_i noFault
        simp only [finish] at parsed
        split at parsed
        · cases parsed
        · rename_i settled target settles
          have holds := certificate.holds_run (.nil automaton) ran
          obtain ⟨holds, edge⟩ := certificate.holds_settle holds settles
          obtain ⟨q, d, rfl, valid, isStart, lexemes⟩ := certificate.derivation_of_ending holds edge
          rw [automaton_rules] at valid
          rw [List.nil_append] at lexemes
          refine ⟨d, valid, isStart, ?_, ?_⟩
          · rw [lexemes, ← noFault]
          · simp only [List.head?_cons, Option.bind_some] at parsed
            split at parsed
            · rename_i program meaning
              cases parsed
              exact meaning
            · cases parsed
  · rintro ⟨d, valid, isStart, stream, meaning⟩
    rw [← automaton_rules] at valid
    obtain ⟨last, settled, target, ran, ends, q, rfl⟩ :=
      (certificate.accepts valid isStart).run (.ofOrigin origin)
    simp [parse, stream, ran, bind, Except.bind, finish, ends, meaning]

end SceneScript.Grammar
