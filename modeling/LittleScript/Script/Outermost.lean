import LittleScript.Machine.Evaluation

namespace LittleScript.Eval

/-!
# Evaluation for a host, and jails

A host evaluates code in a context.  When no evaluation is running yet, nesting too deeply ends
here as a fatal error; a nested evaluation lets it pass on to the outermost one.  A jail evaluates
code in an interpreter of its own, which shares nothing but the world.
-/

variable {σ : Type}

/-- What an evaluation came to: its value, and the error that is pending. -/
structure Evaluated where
  value : Text
  failure : Option Failure

/-- Run code and report the error that is then pending. -/
def runReporting (run : Run σ) (code : Text) : Eval σ Evaluated := do
  let value ← run code true
  return ⟨value, (← inspect Interpreter.error).map .script⟩

/-- The record and the result of an evaluation that was nested too deeply. -/
def aborted (error : FatalError) : Eval σ Evaluated := do
  log "evaluation aborted" [("error", .text error.text)]
  return ⟨[], some (.fatal error)⟩

/-- Let nesting too deeply end here as a failure. -/
def catchTooDeep (action : Eval σ Evaluated) : Eval σ Evaluated :=
  fun machine =>
    match action machine with
    | .error (.tooDeep error) after => aborted error after
    | other => other

/-- Evaluate code in a context; only the outermost evaluation catches nesting too deeply. -/
def evaluateIn (run : Run σ) (context : Context) (code : Text) : Eval σ Evaluated := do
  let saved ← inspect Interpreter.context
  let outermost ← inspect fun interpreter => interpreter.active.isEmpty
  change fun interpreter => { interpreter with context }
  let restoring := ensuring (runReporting run code) fun machine =>
    { machine with interpreter := { machine.interpreter with context := saved } }
  if outermost then catchTooDeep restoring else restoring

/-- The interpreter of a jail: fresh, with the limits and the output of its parent. -/
def jailInterpreter (parent : Interpreter σ) (clean : Bool) : Interpreter σ :=
  let fresh := Interpreter.fresh parent.limits { write := parent.callbacks.write }
  if clean then fresh
  else
    parent.hostCommands.foldl
      (fun jail function => jail.define function.name function.definition) fresh

/-- Run an action on another interpreter in the same world, and come back. -/
def onInterpreter {α : Type} (other : Interpreter σ) (action : Eval σ α) : Eval σ α := do
  let own ← interpreter
  change fun _ => other
  ensuring action fun machine => { machine with interpreter := own }

/--
Evaluate code in a jail.  Its script errors stay there, except for one that wraps a fatal error:
nesting too deeply in the jail, or in a jail that is nested in it, is a script error here.
-/
def jailEvaluate (run : Run σ) (code : Text) (clean : Bool) : Eval σ Text := do
  let parent ← interpreter
  log "jail created" [("clean", .flag clean)]
  let evaluated ← onInterpreter (jailInterpreter parent clean)
    (evaluateIn run parent.context code)
  match evaluated.failure.bind Failure.fatal? with
  | some error =>
      raise (.nestedTooDeep error)
      return []
  | none => return evaluated.value

end LittleScript.Eval
