import SceneScript.Eval.Operation

/-!
How evaluations end. An evaluation ends with a result or with a failure, and either way with a
machine; what holds then is put together along its steps.
-/

namespace SceneScript

namespace EvalM

variable {α β : Type}

/-- The machine behind an evaluation, however it ends. -/
def after (x : EvalM α) (m : Machine) : Machine :=
  match x.run m with
  | .ok _ m => m
  | .error _ m => m

/-- From `m` the evaluation ends in one of the given ways. -/
def Ends (x : EvalM α) (m : Machine) (done : α → Machine → Prop)
    (failed : Failure → Machine → Prop) : Prop :=
  match x.run m with
  | .ok a m => done a m
  | .error e m => failed e m

theorem ends_after (x : EvalM α) (m : Machine) :
    x.Ends m (fun _ m' => m' = x.after m) (fun _ m' => m' = x.after m) := by
  unfold Ends after
  cases x.run m <;> rfl

namespace Ends

variable {m : Machine} {x : EvalM α} {done done' : α → Machine → Prop}
  {failed failed' : Failure → Machine → Prop}

theorem mono (ends : x.Ends m done failed) (more : ∀ a m', done a m' → done' a m')
    (more' : ∀ e m', failed e m' → failed' e m') : x.Ends m done' failed' := by
  unfold Ends at ends ⊢
  cases ran : x.run m with
  | ok a m' =>
    rw [ran] at ends
    exact more a m' ends
  | error e m' =>
    rw [ran] at ends
    exact more' e m' ends

theorem bind {f : α → EvalM β} {next : β → Machine → Prop} (first : x.Ends m done failed)
    (second : ∀ a m', done a m' → (f a).Ends m' next failed) :
    (x >>= f).Ends m next failed := by
  change match EStateM.bind x f m with | .ok a m => next a m | .error e m => failed e m
  change match x m with | .ok a m => done a m | .error e m => failed e m at first
  unfold EStateM.bind
  cases ran : x m with
  | ok a m' =>
    rw [ran] at first
    exact second a m' first
  | error e m' =>
    rw [ran] at first
    exact first

theorem of_ok (ends : x.Ends m done failed) {a : α} {m' : Machine} (ran : x.run m = .ok a m') :
    done a m' := by
  unfold Ends at ends
  rwa [ran] at ends

theorem of_error (ends : x.Ends m done failed) {e : Failure} {m' : Machine}
    (ran : x.run m = .error e m') : failed e m' := by
  unfold Ends at ends
  rwa [ran] at ends

theorem of_run (ok : ∀ a m', x.run m = .ok a m' → done a m')
    (error : ∀ e m', x.run m = .error e m' → failed e m') : x.Ends m done failed := by
  unfold Ends
  cases ran : x.run m with
  | ok a m' => exact ok a m' ran
  | error e m' => exact error e m' ran

theorem of_after {P : Machine → Prop} (ends : x.Ends m (fun _ => P) (fun _ => P)) :
    P (x.after m) := by
  unfold Ends at ends
  unfold EvalM.after
  cases ran : x.run m with
  | ok a m' =>
    rw [ran] at ends
    exact ends
  | error e m' =>
    rw [ran] at ends
    exact ends

end Ends

end EvalM

end SceneScript
