import LittleScript.Machine.Variables
import LittleScript.Script.Words

namespace LittleScript.Eval

/-!
# Evaluation in other frames

Code can be run in the frame of the caller, in the root frame, back in the frame from which it went
there, and in a fresh frame that only shares chosen variables.
-/

variable {σ : Type}

/-- Run code in the parent frame, from where `downEvaluate` leads back; the root runs it itself. -/
def upEvaluate (run : Run σ) (code : Text) : Eval σ Text := do
  let interpreter ← interpreter
  match interpreter.currentFrame.parent with
  | none => run code false
  | some parent => inFrame parent (some interpreter.current) (run code false)

/-- Run code in the frame from which evaluation went up; without one, run it in place. -/
def downEvaluate (run : Run σ) (code : Text) : Eval σ Text := do
  match ← inspect Interpreter.down with
  | none => run code false
  | some down => inFrame down none (run code false)

/-- Run code in the root frame, from where `downEvaluate` leads back. -/
def topEvaluate (run : Run σ) (code : Text) : Eval σ Text := do
  let current ← inspect Interpreter.current
  if current == rootFrame then run code false
  else inFrame rootFrame (some current) (run code false)

/-- The values of variables. -/
def getVariables : List Text → Eval σ (List Text)
  | [] => return []
  | name :: rest => do
      let value ← getVariable name
      return value :: (← getVariables rest)

/-- Assign variables, each its own value. -/
def setVariables (run : Run σ) (mode : Mode) : List (Text × Text) → Eval σ Unit
  | [] => return
  | (name, value) :: rest => do
      let _ ← setVariable run name value mode
      setVariables run mode rest

/--
Run code in a fresh frame below the root.  The variables named by `imports` are copied in before
and those named by `exports` are copied out afterwards.
-/
def isolatedEvaluate (run : Run σ) (code : Text) (imports exports : List Text) : Eval σ Text := do
  let imported ← getVariables imports
  let (value, exported) ← inNewFrame { parent := some rootFrame } do
    setVariables run .fresh (imports.zip imported)
    let value ← run code false
    return (value, ← getVariables exports)
  setVariables run .visible (exports.zip exported)
  return value

end LittleScript.Eval
