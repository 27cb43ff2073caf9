import LittleScript.Machine.Evaluation

namespace LittleScript.Eval

/-!
# Running actions

How the composite actions of an evaluation run on a machine: an action that yields a value hands
it to what follows, one that stops skips it.  Later modules reason with these equations and never
open the monad itself.
-/

variable {σ α β : Type}

/-- What follows an action receives its value and the machine it leaves. -/
theorem bind_of_ok
    {action : Eval σ α}
    {next : α → Eval σ β}
    {machine after : Machine σ}
    {value : α}
    (ran : action machine = .ok value after) :
    (action >>= next) machine = next value after := by
  simp [bind, EStateM.bind, ran]

/-- An action that stops skips what follows. -/
theorem bind_of_error
    {action : Eval σ α}
    {next : α → Eval σ β}
    {machine after : Machine σ}
    {stop : Stop}
    (ran : action machine = .error stop after) :
    (action >>= next) machine = .error stop after := by
  simp [bind, EStateM.bind, ran]

/-- An action and what follows yield a value only if both do. -/
theorem bind_eq_ok
    {action : Eval σ α}
    {next : α → Eval σ β}
    {machine after : Machine σ}
    {value : β}
    (ran : (action >>= next) machine = .ok value after) :
    ∃ first between, action machine = .ok first between ∧ next first between = .ok value after := by
  cases first : action machine with
  | ok result between =>
      rw [bind_of_ok first] at ran
      exact ⟨result, between, rfl, ran⟩
  | error stop between =>
      rw [bind_of_error first] at ran
      cases ran

/-- A cleanup is made behind an action that yields a value. -/
theorem ensuring_of_ok
    {action : Eval σ α}
    (cleanup : Machine σ → Machine σ)
    {machine after : Machine σ}
    {value : α}
    (ran : action machine = .ok value after) :
    ensuring action cleanup machine = .ok value (cleanup after) := by
  rw [ensuring, ran]

/-- A cleanup follows an action that has yielded a value. -/
theorem ensuring_eq_ok
    {action : Eval σ α}
    {cleanup : Machine σ → Machine σ}
    {machine after : Machine σ}
    {value : α}
    (ran : ensuring action cleanup machine = .ok value after) :
    ∃ ended, action machine = .ok value ended ∧ after = cleanup ended := by
  rw [ensuring] at ran
  split at ran
  · cases ran
    exact ⟨_, by assumption, rfl⟩
  · cases ran

/-- What follows an action matters only for what the action yields. -/
theorem bind_congr_of_ok
    {action : Eval σ α}
    {next other : α → Eval σ β}
    {machine : Machine σ}
    (same : ∀ value after, action machine = .ok value after → next value after = other value after) :
    (action >>= next) machine = (action >>= other) machine := by
  cases ran : action machine with
  | ok value after =>
      rw [bind_of_ok ran, bind_of_ok ran, same value after ran]
  | error stop after =>
      rw [bind_of_error ran, bind_of_error ran]

/-- An action matters to what follows only through how it ends, also on another machine. -/
theorem bind_congr_first
    {action other : Eval σ α}
    {next : α → Eval σ β}
    {machine start : Machine σ}
    (same : action machine = other start) :
    (action >>= next) machine = (other >>= next) start := by
  simp only [bind, EStateM.bind, same]

@[simp] theorem pure_apply
    (value : α)
    (machine : Machine σ) :
    (pure value : Eval σ α) machine = .ok value machine :=
  rfl

@[simp] theorem pure_bind_apply
    (value : α)
    (next : α → Eval σ β)
    (machine : Machine σ) :
    ((pure value : Eval σ α) >>= next) machine = next value machine :=
  rfl

@[simp] theorem interpreter_bind_apply
    (next : Interpreter σ → Eval σ β)
    (machine : Machine σ) :
    (interpreter >>= next) machine = next machine.interpreter machine :=
  rfl

@[simp] theorem inspect_bind_apply
    (view : Interpreter σ → α)
    (next : α → Eval σ β)
    (machine : Machine σ) :
    (inspect view >>= next) machine = next (view machine.interpreter) machine :=
  rfl

@[simp] theorem hasError_bind_apply
    (next : Bool → Eval σ β)
    (machine : Machine σ) :
    (hasError >>= next) machine = next machine.interpreter.error.isSome machine :=
  rfl

@[simp] theorem isStopping_bind_apply
    (next : Bool → Eval σ β)
    (machine : Machine σ) :
    (isStopping >>= next) machine =
      next machine.interpreter.currentFrame.stopping machine :=
  rfl

@[simp] theorem change_bind_apply
    (update : Interpreter σ → Interpreter σ)
    (next : Unit → Eval σ β)
    (machine : Machine σ) :
    (change update >>= next) machine =
      next () { machine with interpreter := update machine.interpreter } :=
  rfl

/-- Raising an error leaves one pending and changes nothing else in the interpreter. -/
theorem raiseAt_apply
    (offset : Int)
    (reason : Reason)
    (machine : Machine σ) :
    ∃ error world, raiseAt offset reason machine =
      .ok () ⟨{ machine.interpreter with error := some error }, world⟩ := by
  rw [raiseAt, interpreter_bind_apply]
  cases pending : machine.interpreter.error with
  | none =>
      exact ⟨_, _, rfl⟩
  | some error =>
      refine ⟨error, machine.world, ?_⟩
      have unchanged : { machine.interpreter with error := some error } = machine.interpreter := by
        rw [← pending]
      rw [unchanged]
      rfl

theorem raise_apply
    (reason : Reason)
    (machine : Machine σ) :
    ∃ error world, raise reason machine =
      .ok () ⟨{ machine.interpreter with error := some error }, world⟩ :=
  raiseAt_apply _ reason machine

end LittleScript.Eval
