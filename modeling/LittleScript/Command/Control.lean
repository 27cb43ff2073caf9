import LittleScript.Command.Lists

namespace LittleScript.Command

/-!
# Commands for control flow

Conditions are arithmetic expressions; bodies are code that runs in the current frame.  A loop ends
at an error and at a `return` in its frame.
-/

open Eval

variable {σ : Type}

/-- The truth of a condition; there is none when it fails. -/
def condition (run : Run σ) (code : Text) (negated : Bool) : Eval σ (Option Bool) := do
  let value ← expression run code
  if ← hasError then return none
  return value.map fun text => text.truth != negated

/-- The word that negates a condition. -/
def notWord : Text := Text.ofString "not"

/-- Split off a leading word that negates. -/
def negation : List Text → List Text × Bool
  | [] => ([], false)
  | first :: rest => if first == notWord then (rest, true) else (first :: rest, false)

/-- Run one of two bodies, of which the second may be missing. -/
def branch (run : Run σ) (negated : Bool) : List Text → Eval σ Reply
  | test :: body :: rest => do
      match ← condition run test negated with
      | none => return .value []
      | some true => return .value (← run body false)
      | some false =>
          match rest with
          | other :: _ => return .value (← run other false)
          | [] => return .value []
  | _ => return .badArguments

/-- Run a body if a condition holds, and otherwise perhaps another. -/
def conditional (run : Run σ) (arguments : List Text) : Eval σ Reply :=
  let (rest, negated) := negation arguments
  branch run negated rest

/-- Whether a loop must end: an error is pending or the frame is being left. -/
def isInterrupted : Eval σ Bool := do
  return (← hasError) || (← isStopping)

/-- Run a body as long as a condition holds, at most `rounds` times. -/
def whileRounds (run : Run σ) (test body : Text) (negated : Bool) : Nat → Text → Eval σ Text
  | 0, _ => throw .exhausted
  | rounds + 1, last => do
      if ← isInterrupted then return last
      match ← condition run test negated with
      | some true => whileRounds run test body negated rounds (← run body false)
      | _ => return last

/-- Run a body as long as a condition holds; the value is that of the last round. -/
def whileLoop (run : Run σ) (rounds : Nat) (arguments : List Text) : Eval σ Reply := do
  match negation arguments with
  | (test :: body :: _, negated) =>
      return .value (← whileRounds run test body negated rounds [])
  | _ => return .badArguments

/-- Run a body and a step as long as a condition holds, at most `rounds` times. -/
def forRounds (run : Run σ) (test step body : Text) : Nat → Text → Eval σ Text
  | 0, _ => throw .exhausted
  | rounds + 1, last => do
      if ← isInterrupted then return last
      match ← condition run test false with
      | some true =>
          let value ← run body false
          if ← isInterrupted then return value
          let _ ← run step false
          forRounds run test step body rounds value
      | _ => return last

/-- Run a start, and then a body and a step as long as a condition holds. -/
def forLoop (run : Run σ) (rounds : Nat) : List Text → Eval σ Reply
  | start :: test :: step :: body :: _ => do
      let _ ← run start false
      return .value (← forRounds run test step body rounds [])
  | _ => return .badArguments

/-- Run a body for each element and collect what is not empty; `results` is in reverse. -/
def eachItem (run : Run σ) (name body : Text) : List Text → List Text → Eval σ (List Text)
  | [], results => return results.reverse
  | item :: rest, results => do
      let _ ← setVariable run name item .own
      let value ← run body false
      let results := if value.isEmpty then results else value :: results
      if ← isInterrupted then return results.reverse
      eachItem run name body rest results

/-- Run a body for each element of a list and collect the results that are not empty. -/
def forEach (run : Run σ) (arguments : List Text) : Eval σ Reply := do
  match loopParts "i" arguments with
  | some (name, list, body) =>
      return .value (ListText.write (← eachItem run name body (← readList run list) []))
  | none => return .badArguments

/-- Run code; if it raises an error, drop the error and run the handler, if there is one. -/
def attempt (run : Run σ) : List Text → Eval σ Reply
  | [] => return .badArguments
  | body :: rest => do
      if ← hasError then return .value []
      let value ← run body false
      if !(← hasError) then return .value value
      clearError
      match rest with
      | handler :: _ => return .value (← run handler false)
      | [] => return .value []

/-- Raise an error with a message. -/
def raiseError (arguments : List Text) : Eval σ Reply := do
  raise (.raised (arguments.headD []))
  return .value []

/-- Tell the host that the script wants to end. -/
def exit (arguments : List Text) : Eval σ Reply := do
  match (← interpreter).callbacks.exit with
  | some handle => touch (handle arguments.head?)
  | none => pure ()
  return .value []

/-- Provide the result of the current frame and end its code. -/
def returnValue (arguments : List Text) : Eval σ Reply := do
  let value := arguments.headD []
  change fun interpreter => interpreter.updateCurrent fun frame =>
    { frame with stopping := true, result := some value }
  return .value value

/-- Provide the result of the current frame, or tell what it is. -/
def setResult (arguments : List Text) : Eval σ Reply := do
  match arguments with
  | value :: _ =>
      change fun interpreter => interpreter.updateCurrent fun frame =>
        { frame with result := some value }
      return .value value
  | [] => return .value (← inspect fun interpreter => interpreter.currentFrame.result.getD [])

end LittleScript.Command
