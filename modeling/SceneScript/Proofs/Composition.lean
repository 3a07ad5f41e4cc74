import SceneScript.Proofs.Eval.Relocation
import SceneScript.Proofs.Parse.Concatenation
import SceneScript.Proofs.Parse.Shape

/-!
Texts on the lines behind each other are one program, which does what they do one after the other.
-/

namespace SceneScript

namespace EvalM

variable {host : Host} {context : Context} {m : Machine}

theorem evalAll_append (first second : List Node) :
    evalAll host context (first ++ second) = do
      let rs ← evalAll host context first
      let ss ← evalAll host context second
      return rs ++ ss := by
  induction first with
  | nil => simp [evalAll]
  | cons node nodes ih => simp [evalAll, ih]

/-- What is left to do once it is noted that a program runs. -/
def runBody (host : Host) (context : Context) (body : List Node) : EvalM Unit := do
  let _ ← evalAll host context body
  let _ ← clone (Machine.constant .null)
  return ()

theorem run_runProgram (host : Host) (context : Context) (p : Program) (m : Machine) :
    ∃ events, (runProgram host context p).run m =
      (runBody host context p.body).run { m with events := events } := by
  refine ⟨.visited "Program" p.span.start ::
    .running p.span.start.file p.body.length :: m.events, ?_⟩
  rw [runProgram, Program.toNode, eval, runBody]
  simp only [bind_assoc]
  rfl

/-- A run that succeeds leaves one more value behind, of which nothing knows. -/
theorem run_evalAll_of_runBody {body : List Node} {m₁ : Machine}
    (ran : (runBody host context body).run m = .ok () m₁) :
    ∃ rs n c, (evalAll host context body).run m = .ok rs n ∧ m₁ = (n.alloc c).2 := by
  rw [runBody, run_bind] at ran
  cases done : (evalAll host context body).run m with
  | error e n =>
    rw [done] at ran
    cases ran
  | ok rs n =>
    simp only [done, run_bind, run_clone] at ran
    cases copied : (n.cell (Machine.constant .null)).copied with
    | error e =>
      rw [copied] at ran
      cases ran
    | ok c =>
      rw [copied] at ran
      cases ran
      exact ⟨rs, n, c, rfl, rfl⟩

theorem run_runBody_append {first second : List Node} {rs : List Ref} {n : Machine}
    (done : (evalAll host context first).run m = .ok rs n) :
    (runBody host context (first ++ second)).run m = (runBody host context second).run n := by
  rw [runBody, runBody, evalAll_append]
  simp only [bind_assoc, pure_bind]
  rw [run_bind, done]

variable {scene : SceneHost}

theorem tracks_runBody {ρ : Renaming} {m' : Machine} (s : Shift) (mirrors : m.Mirrors ρ m')
    (body : List Node) :
    Tracks ρ (runBody scene context (s.nodes body)) (runBody scene context body) m m'
      fun _ _ _ _ => True := by
  refine (tracks_evalAll scene context s mirrors body).bind fun _ _ n n' mirrors _ _ => ?_
  exact (tracks_clone_constant mirrors .null).bind fun _ _ n n' mirrors _ _ =>
    .pure mirrors trivial

/-- A program that is two others on lines behind each other, and the second of these on the machine
    that the first one leaves. -/
theorem tracks_runProgram {p p₁ p₂ : Program} {ahead behind : Shift}
    (body : p.body = ahead.nodes p₁.body ++ behind.nodes p₂.body) (mirrors : m.Mirrors .id m)
    {m₁ : Machine} (first : (runProgram scene context p₁).run m = .ok () m₁) :
    ∃ ρ, Tracks ρ (runProgram scene context p) (runProgram scene context p₂) m m₁
      fun _ _ _ _ => True := by
  obtain ⟨events, whole⟩ := run_runProgram scene context p m
  obtain ⟨events₁, alone⟩ := run_runProgram scene context p₁ m
  obtain ⟨events₂, second⟩ := run_runProgram scene context p₂ m₁
  rw [alone] at first
  obtain ⟨_, k', c, ended, rfl⟩ := run_evalAll_of_runBody first
  have noted := mirrors.aside { m with events := events } { m with events := events₁ } rfl rfl rfl
    rfl rfl rfl rfl
  cases tracks_evalAll scene context ahead noted p₁.body with
  | error _ ran' =>
    rw [ended] at ran'
    cases ran'
  | @ok rs _ k _ ran ran' like grown =>
    rw [ended] at ran'
    cases ran'
    -- The first program has ended with a copy of null. The whole goes on without one, so that from
    -- here on its values have smaller numbers.
    have behindFirst := (like.skip c).aside k { (k'.alloc c).2 with events := events₂ } rfl rfl
      rfl rfl like.output like.scene like.calls
    rw [body, run_runBody_append ran] at whole
    exact ⟨_, .of_runs whole second grown (tracks_runBody behind behindFirst p₂.body)⟩

end EvalM

/-- What is told about a fault in a shifted text. -/
theorem Shift.report_fault (s : Shift) (fault : ParseFault) :
    (s.fault fault).report.name = fault.report.name ∧
      (s.fault fault).report.details = fault.report.details ∧
      (s.fault fault).report.span = s.span fault.report.span := by
  cases fault with
  | lexical f => exact ⟨rfl, rfl, rfl⟩
  | grammatical f => exact ⟨rfl, rfl, rfl⟩

/-- A text on the lines behind a program. Its faults are those that it has alone, further down. If
    it has none, the whole is the statements of both; and where the first one runs, the whole ends,
    prints and leaves variables as the second one does on what the first one leaves. -/
theorem programs_compose_by_concatenation {file first : String} {p₁ : Program}
    (accepted : parse ⟨file, first⟩ = .ok p₁) (second : String) :
    let whole : Origin := ⟨file, first ++ "\n" ++ second⟩
    let ahead : Shift := ⟨whole, 0, 0⟩
    let behind : Shift := ⟨whole, first.length + 1, first.toList.count '\n' + 1⟩
    match parse ⟨file, second⟩ with
    | .error fault => ∃ moved, parse whole = .error moved ∧
        moved.report.name = fault.report.name ∧ moved.report.details = fault.report.details ∧
        moved.report.span = behind.span fault.report.span
    | .ok p₂ => ∃ p, parse whole = .ok p ∧
        p.body = ahead.nodes p₁.body ++ behind.nodes p₂.body ∧
        ∀ (scene : SceneHost) (builtins : List Builtin) (m₁ : Machine),
          let start := Machine.initial.programContext builtins
          let joined := EvalM.runProgram scene start.1 p
          let after := EvalM.runProgram scene start.1 p₂
          (EvalM.runProgram scene start.1 p₁).run start.2 = .ok () m₁ →
          ∃ n n', ((joined.run start.2 = .ok () n ∧ after.run m₁ = .ok () n') ∨
              ∃ e e', joined.run start.2 = .error e n ∧ after.run m₁ = .error e' n' ∧
                e.bare = e'.bare) ∧
            n.output = n'.output ∧ n.scene = n'.scene ∧
            n.calls.map HostCall.bare = n'.calls.map HostCall.bare ∧
            ∀ name, Option.Rel (n.ContentEqual n') (n.lookup start.1.table name)
              (n'.lookup start.1.table name) := by
  intro whole ahead behind
  have parsed := parse_concat accepted second
  cases other : parse ⟨file, second⟩ with
  | error fault =>
    rw [other] at parsed
    exact ⟨_, parsed, behind.report_fault fault⟩
  | ok p₂ =>
    rw [other] at parsed
    refine ⟨_, parsed, Program.body_ofBody _ _, ?_⟩
    intro scene builtins m₁ start joined after ran
    obtain ⟨ρ, tracks⟩ := EvalM.tracks_runProgram
      (Program.body_ofBody whole (ahead.nodes p₁.body ++ behind.nodes p₂.body))
      (Machine.Mirrors.programContext builtins) ran
    cases tracks with
    | ok ran ran' mirrors =>
      exact ⟨_, _, .inl ⟨ran, ran'⟩, mirrors.output, mirrors.scene, mirrors.calls,
        mirrors.rel_lookup _⟩
    | error ran ran' mirrors alike =>
      exact ⟨_, _, .inr ⟨_, _, ran, ran', alike⟩, mirrors.output, mirrors.scene, mirrors.calls,
        mirrors.rel_lookup _⟩

/-- A text is bound on one line and printed on the next. -/
theorem greeting_on_two_lines : ∃ p₁ p₂ p m₁,
    parse ⟨"greeting", "let x = 'a';"⟩ = .ok p₁ ∧ parse ⟨"greeting", "print(x);"⟩ = .ok p₂ ∧
    parse ⟨"greeting", "let x = 'a';" ++ "\n" ++ "print(x);"⟩ = .ok p ∧
    (EvalM.runProgram (SceneHost.recording .none) (Machine.initial.programContext []).1 p₁).run
      (Machine.initial.programContext []).2 = .ok () m₁ ∧
    ((EvalM.runProgram (SceneHost.recording .none) (Machine.initial.programContext []).1 p).after
      (Machine.initial.programContext []).2).output =
    ((EvalM.runProgram (SceneHost.recording .none) (Machine.initial.programContext []).1 p₂).after
      m₁).output := by
  obtain ⟨p₁, first⟩ : ∃ p, FrontEnd.precedence.parse ⟨"greeting", "let x = 'a';"⟩ = .ok p :=
    FrontEnd.exists_of_toBool (by decide +kernel)
  obtain ⟨p₂, second⟩ : ∃ p, FrontEnd.precedence.parse ⟨"greeting", "print(x);"⟩ = .ok p :=
    FrontEnd.exists_of_toBool (by decide +kernel)
  have runs : ((FrontEnd.precedence.parse ⟨"greeting", "let x = 'a';"⟩).toOption.any fun p =>
      ((EvalM.runProgram (SceneHost.recording .none) (Machine.initial.programContext []).1 p).run'
        (Machine.initial.programContext []).2).isSome) = true := by decide +kernel
  rw [first] at runs
  cases ran : (EvalM.runProgram (SceneHost.recording .none)
      (Machine.initial.programContext []).1 p₁).run (Machine.initial.programContext []).2 with
  | error e n =>
    simp only [Except.toOption, Option.any_some] at runs
    delta EStateM.run' at runs
    rw [ran] at runs
    cases runs
  | ok _ m₁ =>
    have composed := programs_compose_by_concatenation first "print(x);"
    have second : parse ⟨"greeting", "print(x);"⟩ = .ok p₂ := second
    rw [second] at composed
    obtain ⟨p, parsed, -, behaves⟩ := composed
    obtain ⟨n, n', ends, printed, -⟩ := behaves (.recording .none) [] m₁ ran
    refine ⟨p₁, p₂, p, m₁, first, second, parsed, ran, ?_⟩
    rcases ends with ⟨joined, after⟩ | ⟨e, e', joined, after, -⟩
    · rw [EvalM.after, EvalM.after, joined, after]
      exact printed
    · rw [EvalM.after, EvalM.after, joined, after]
      exact printed

end SceneScript
