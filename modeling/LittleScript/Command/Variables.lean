import LittleScript.Command.Lists

namespace LittleScript.Command

/-!
# Commands on variables
-/

open Eval

variable {σ : Type}

/-- Assign names and values pairwise; a name left over is read instead. -/
def setPairs (run : Run σ) (mode : Mode) : List Text → Text → Eval σ Reply
  | [], held => return .value held
  | [name], _ => do return .value (← getVariable name)
  | name :: value :: rest, _ => do
      let held ← setVariable run name value mode
      setPairs run mode rest (held.getD [])

/-- Assign variables, or read one; the assignments may be directed to be global. -/
def setVariable (run : Run σ) : List Text → Eval σ Reply
  | [] => return .badArguments
  | first :: rest =>
      if first == globalWord then setPairs run .global rest []
      else setPairs run .visible (first :: rest) []

/-- Create the named variables, empty, where the current frame lacks them. -/
def declareLocal (run : Run σ) : List Text → Eval σ Reply
  | [] => return .value []
  | name :: rest => do
      let known ← inspect fun interpreter => interpreter.currentFrame.bindings.contains name
      if !known then
        let _ ← Eval.setVariable run name [] .fresh
      declareLocal run rest

/-- Attach code to variables. -/
def watchAll (code : Text) : List Text → Eval σ Unit
  | [] => return
  | name :: rest => do
      if !name.isEmpty then Eval.watch name code
      watchAll code rest

/-- Attach the last argument as code to the variables that the others name. -/
def watch (arguments : List Text) : Eval σ Reply := do
  match arguments.getLast? with
  | some code =>
      if arguments.length < 2 then return .badArguments
      watchAll code arguments.dropLast
      return .value []
  | none => return .badArguments

/-- A number plus or minus another. -/
def adjusted (decrease : Bool) (value amount : Number) : Number :=
  match value, amount with
  | .int value, .int amount => .int (if decrease then value - amount else value + amount)
  | value, amount =>
      .float (if decrease then value.toFloat - amount.toFloat else value.toFloat + amount.toFloat)

/-- Increase or decrease the number in a variable, by one unless told otherwise. -/
def adjust (run : Run σ) (decrease : Bool) : List Text → Eval σ Reply
  | [] => return .badArguments
  | name :: rest => do
      let value := (← getVariable name).toNumber
      let amount := match rest with | amount :: _ => amount.toNumber | [] => .int 1
      let result := (adjusted decrease value amount).text
      let _ ← Eval.setVariable run name result .visible
      return .value result

end LittleScript.Command
