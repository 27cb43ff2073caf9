import LittleScript.Proofs.Dispatching

namespace LittleScript.Eval

/-!
# Evaluation with another way to go down

Commands, and host commands, go down to the frame from which evaluation went up in one way.  Here
that way is a parameter, so that one can say that code never goes down: it then runs the same
whatever going down would do.
-/

variable {σ : Type}

/-- A way to go down, given a way to run nested code. -/
abbrev Descent (σ : Type) := Run σ → Text → Eval σ Text

/-- Perform what a host command asks for, going down in this way. -/
def performVia (descend : Text → Eval σ Text) (run : Run σ) : HostAction σ → Eval σ Reply
  | .reply answer => return answer
  | .crash => throw .crash
  | .touch update next => do
      touch update
      performVia descend run next
  | .run code ownResult next => do
      let value ← run code ownResult
      performVia descend run (next value)
  | .evaluate code next => do
      let evaluated ← evaluateIn run .background code
      match evaluated.failure with
      | some failure => performVia descend run (next (.error failure))
      | none => performVia descend run (next (.ok evaluated.value))
  | .raise message next => do
      raise (.raised message)
      performVia descend run next
  | .raiseAt offset message next => do
      raiseInnermost offset (.raised message)
      performVia descend run next
  | .pendingError next => do
      let error ← inspect Interpreter.error
      performVia descend run (next error)
  | .clearError next => do
      clearError
      performVia descend run next
  | .pushFrame next => do
      pushFrame
      performVia descend run next
  | .popFrame next => do
      popFrame
      performVia descend run next
  | .frameDepth next => do
      let depth ← inspect fun interpreter => interpreter.frameChain.length - 1
      performVia descend run (next depth)
  | .frameFunction next => do
      let name ← inspect fun interpreter =>
        (interpreter.currentFrame.function.bind interpreter.function?).map Function.name
      performVia descend run (next name)
  | .setVariable name value mode next => do
      let stored ← setVariable run name value mode
      performVia descend run (next stored)
  | .watch name code next => do
      watch name code
      performVia descend run next
  | .upEvaluate code next => do
      let value ← upEvaluate run code
      performVia descend run (next value)
  | .downEvaluate code next => do
      let value ← descend code
      performVia descend run (next value)
  | .topEvaluate code next => do
      let value ← topEvaluate run code
      performVia descend run (next value)
  | .isolatedEvaluate code imports exports next => do
      let value ← isolatedEvaluate run code imports exports
      performVia descend run (next value)

/-- Call a built-in command, going down in this way. -/
def callBuiltinVia (descend : Text → Eval σ Text) (run : Run σ) (rounds : Nat) (command : Builtin)
    (arguments : List Text) : Eval σ Reply :=
  match command with
  | .downEvaluate => Command.joined descend arguments
  | command => callBuiltin run rounds command arguments

/-- Call commands like scripts do, going down in another way. -/
def dispatchVia (descent : Descent σ) : Dispatcher σ := fun run rounds command => do
  let name := command.headD []
  let arguments := command.tail
  let interpreter ← interpreter
  match interpreter.commands.get? name with
  | some id =>
      match interpreter.function? id with
      | some ⟨_, .builtin builtin⟩ =>
          settle (← callBuiltinVia (descent run) run rounds builtin arguments)
      | some ⟨_, .host action⟩ => settle (← performVia (descent run) run (action arguments))
      | some ⟨currentName, .script parameters body⟩ =>
          callScript run id currentName parameters body arguments
      | none => return []
  | none =>
      if name.isEmpty then return []
      if interpreter.catcher.isEmpty then
        raise (.unknownCommand name)
        return []
      callCatcher run command

/-- Code that runs the same whatever going down would do: it does not come to it. -/
def NeverDescends (fuel : Nat) (code : Text) (ownResult : Bool) (machine : Machine σ) : Prop :=
  ∀ descent : Descent σ,
    evaluateVia (dispatchVia descent) fuel code ownResult machine =
      evaluate fuel code ownResult machine

/-! ## Going down as scripts do -/

theorem performVia_downEvaluate
    (run : Run σ)
    (action : HostAction σ) :
    performVia (downEvaluate run) run action = perform run action := by
  induction action with
  | evaluate code next inductionHypothesis =>
      rw [performVia, perform]
      refine bind_congr fun evaluated => ?_
      obtain ⟨value, failure⟩ := evaluated
      cases failure with
      | none => exact inductionHypothesis _
      | some failure => exact inductionHypothesis _
  | _ =>
      simp_all only [performVia, perform]

theorem callBuiltinVia_downEvaluate
    (run : Run σ)
    (rounds : Nat)
    (command : Builtin)
    (arguments : List Text) :
    callBuiltinVia (downEvaluate run) run rounds command arguments =
      callBuiltin run rounds command arguments := by
  cases command <;> rfl

theorem dispatchVia_downEvaluate :
    dispatchVia (σ := σ) downEvaluate = dispatch := by
  funext run rounds command
  simp only [dispatchVia, performVia_downEvaluate, callBuiltinVia_downEvaluate]
  rfl

/-- Going down as scripts do, this is how code is run. -/
theorem evaluateVia_downEvaluate
    (fuel : Nat) :
    evaluateVia (σ := σ) (dispatchVia downEvaluate) fuel = evaluate fuel := by
  rw [dispatchVia_downEvaluate, evaluateVia_dispatch]

end LittleScript.Eval
