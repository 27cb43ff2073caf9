import LittleScript.Machine.Evaluation
import LittleScript.Number

namespace LittleScript.Command

/-!
# Commands for output, files and chance

A failure to read or store is logged and gives the empty text.
-/

open Eval

variable {σ : Type}

/-- Write the arguments and a line break. -/
def print (arguments : List Text) : Eval σ Reply := do
  Eval.write (Text.joinSpaced arguments ++ [Byte.newline])
  return .value []

/-- Write the arguments. -/
def write (arguments : List Text) : Eval σ Reply := do
  Eval.write (Text.joinSpaced arguments)
  return .value []

/-- Log that a file could not be used. -/
def logFailure (message : String) (name error : Text) : Eval σ Unit :=
  log message [("name", .text name), ("error", .text error)]

/-- The text of a file. -/
def read : List Text → Eval σ Reply
  | [] => return .badArguments
  | name :: _ => do
      match ← readText name with
      | .ok text => return .value text
      | .error error =>
          logFailure "read failed" name error
          return .value []

/-- Store a text in a file. -/
def store : List Text → Eval σ Reply
  | name :: text :: _ => do
      match ← storeText name text with
      | .ok () => return .value text
      | .error error =>
          logFailure "store failed" name error
          return .value []
  | _ => return .badArguments

/-- Run the code of a file. -/
def source (run : Run σ) : List Text → Eval σ Reply
  | [] => return .badArguments
  | name :: _ => do
      match ← readSource name with
      | .ok code => return .value (← run code true)
      | .error error =>
          logFailure "source failed" name error
          return .value []

/-- A random number from zero up to, not including, one. -/
def random : Eval σ Reply := do
  return .value (Binary64.text (← ask World.random))

end LittleScript.Command
