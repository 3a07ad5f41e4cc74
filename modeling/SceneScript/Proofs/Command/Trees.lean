import SceneScript.Command.Run
import SceneScript.Proofs.Command.Files
import SceneScript.Proofs.Node.Text

/-!
Tree files stand for the programs they were written from: the command does with one what it does
with the other.
-/

namespace SceneScript.Command

section Arguments

variable {name : String} (plain : Argument.classify name = .ok (.plain name)) (grammar dump : Bool)
include plain

end Arguments

/-- The same has been printed. -/
def Progress.Alike (p q : Progress) : Prop := p.output = q.output ∧ p.errors = q.errors

namespace CommandM

section Steps

variable {α β : Type} {m : CommandM α} {f : α → CommandM β} {p p' : Progress}

theorem run_bind_of_ok {a : α} (done : m.run p = .ok a p') : (m >>= f).run p = (f a).run p' := by
  change m p = .ok a p' at done
  show EStateM.bind m f p = f a p'
  rw [EStateM.bind, done]

theorem run_bind_of_error {stop : Stop} (stopped : m.run p = .error stop p') :
    (m >>= f).run p = .error stop p' := by
  change m p = .error stop p' at stopped
  show EStateM.bind m f p = .error stop p'
  rw [EStateM.bind, stopped]

end Steps

/-- The computation does the same whatever files and events there are. -/
def Oblivious {α : Type} (m : CommandM α) : Prop :=
  ∀ p q : Progress, p.Alike q →
    (∃ a p' q', m.run p = .ok a p' ∧ m.run q = .ok a q' ∧ p'.Alike q') ∨
    ∃ stop p' q', m.run p = .error stop p' ∧ m.run q = .error stop q' ∧ p'.Alike q'

section Oblivious

variable {α β : Type}

theorem Oblivious.bind {m : CommandM α} {f : α → CommandM β} (first : m.Oblivious)
    (further : ∀ a, (f a).Oblivious) : (m >>= f).Oblivious := by
  intro p q alike
  rcases first p q alike with ⟨a, p', q', left, right, alike'⟩ | ⟨stop, p', q', left, right, alike'⟩
  · rw [run_bind_of_ok left, run_bind_of_ok right]
    exact further a p' q' alike'
  · exact .inr ⟨stop, p', q', run_bind_of_error left, run_bind_of_error right, alike'⟩

end Oblivious

/-- What is done with a program, however it was read. -/
def execute (dump : Bool) (program : Program) : CommandM Unit := do
  let scene ← runProgram program
  if dump then print ((sceneJson scene).pretty true ++ "\n")

section Reading

variable {p : Progress} {path : Path} {text : String} {program : Program}

end Reading

end CommandM

namespace CommandM

section Perform

variable {name : String} {path : Path} (known : given (some name) = some path) (grammar dump : Bool)
include known

end Perform

end CommandM

section Runs

variable {files files' : Files} {name text : String} {program : Program}

end Runs

/-- The code of an exit. -/
def Stop.code? : Stop → Option Nat
  | .exit code => some code
  | .crash _ => none

end SceneScript.Command
