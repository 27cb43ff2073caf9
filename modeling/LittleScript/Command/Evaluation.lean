import LittleScript.Script.Outermost
import LittleScript.Script.Scope

namespace LittleScript.Command

/-!
# Commands that run code
-/

open Eval

variable {σ : Type}

/-- Run the arguments, joined with single spaces, as code; without arguments there is no code. -/
def joined (evaluate : Text → Eval σ Text) (arguments : List Text) : Eval σ Reply := do
  if arguments.isEmpty then return .value []
  return .value (← evaluate (Text.joinSpaced arguments))

/-- Run code in a fresh frame, with lists of the variables to copy in and out. -/
def isolated (run : Run σ) (arguments : List Text) : Eval σ Reply := do
  match arguments with
  | [] => return .badArguments
  | [code] => return .value (← isolatedEvaluate run code [] [])
  | [names, code] =>
      let shared ← readList run names
      return .value (← isolatedEvaluate run code shared shared)
  | imports :: exports :: rest =>
      let imported ← readList run imports
      let exported ← readList run exports
      return .value (← isolatedEvaluate run (rest.getLastD []) imported exported)

/-- The word that asks for a jail without the host's commands. -/
def cleanWord : Text := Text.ofString "clean"

/-- Run code in a jail. -/
def jailed (run : Run σ) (arguments : List Text) : Eval σ Reply := do
  match arguments with
  | [] => return .badArguments
  | [code] => return .value (← jailEvaluate run code false)
  | first :: rest => return .value (← jailEvaluate run (rest.getLastD []) (first == cleanWord))

/-- Replace dollars and brackets in a text. -/
def substitute (run : Run σ) : List Text → Eval σ Reply
  | [] => return .badArguments
  | text :: _ => do return .value (← readJoined run text)

/-- Evaluate an arithmetic expression. -/
def arithmetic (run : Run σ) (arguments : List Text) : Eval σ Reply := do
  if arguments.isEmpty then return .badArguments
  return .value ((← expression run (Text.joinSpaced arguments)).getD [])

end LittleScript.Command
