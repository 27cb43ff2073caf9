import LittleScript.Script.Evaluate

namespace LittleScript

/-!
# Interpreters as a host uses them

A host starts a machine, runs actions on it one after the other, and sees how each ended.
-/

/-- How an action on a machine ended. -/
inductive Outcome (α : Type) where
  | finished (value : α)
  | stopped (stop : Stop)

namespace Machine

variable {σ α : Type}

/-- A machine with a fresh interpreter of the default limits. -/
def start (host : σ) (callbacks : Callbacks σ) (files : FileSystem) : Machine σ :=
  { interpreter := .fresh {} callbacks, world := { host, files } }

/-- Run an action on a machine. -/
def perform (machine : Machine σ) (action : Eval σ α) : Outcome α × Machine σ :=
  match action machine with
  | .ok value after => (.finished value, after)
  | .error stop after => (.stopped stop, after)

/-- Evaluate code that nothing cancels. -/
def evaluate (machine : Machine σ) (code : Text) : Outcome Eval.Evaluated × Machine σ :=
  machine.perform (Eval.evaluateCode .background code)

end Machine

/-- The elements that a fresh interpreter reads from a text, and the error that is then pending. -/
def ListText.read (text : Text) : Outcome (List Text × Option ScriptError) :=
  let action : Eval Unit (List Text × Option ScriptError) := do
    let items ← Eval.readList Eval.runCode text
    return (items, ← Eval.inspect Interpreter.error)
  ((Machine.start () {} {}).perform action).1

end LittleScript
