import LittleScript.Script.Dispatch

namespace LittleScript.Eval

/-!
# Running scripts

A script is read and run command by command; its value is that of the last command, or the pending
result of its frame.  Running a script needs a way to run the scripts nested in it; the bound on
nesting and on loops ties the two together, and `evaluate` with a bound that is large enough is the
way to run code.
-/

open Source (Cursor)

variable {σ : Type}

/-- Note where the innermost evaluation has its current command. -/
def markCommand (offset : Nat) : Eval σ Unit :=
  change fun interpreter => { interpreter with active := offset :: interpreter.active.tail }

/-- Move past blanks, separators and blanks to the next command. -/
def nextCommand (reader : Reader) (cursor : Cursor) : Eval σ Cursor := do
  let cursor ← skipBlanks reader cursor
  let separators := cursor.rest.takeWhile Byte.isSeparator
  skipBlanks reader
    ⟨cursor.rest.dropWhile Byte.isSeparator, cursor.offset + separators.length⟩

/-- Run the command at the cursor; without a next cursor the script ends there. -/
def commandAt (run : Run σ) (rounds bound : Nat) (reader : Reader) (cursor : Cursor) :
    Eval σ (Text × Option Cursor) := do
  markCommand cursor.offset
  match ← cancellation with
  | some cause =>
      raise (.cancelled cause)
      return ([], none)
  | none =>
      match ← words reader run bound cursor with
      | none => return ([], none)
      | some (command, after) =>
          if ← hasError then return ([], none)
          let value ← if command.isEmpty then pure [] else dispatch run rounds command
          if ← isStopping then return (value, none)
          return (value, some (← nextCommand reader after))

/-- Run commands until the text ends, an error is pending or the frame is being left. -/
def commands (run : Run σ) (rounds : Nat) (reader : Reader) (depth : Nat) :
    Nat → Cursor → Text → Eval σ Text
  | 0, _, last => return last
  | bound + 1, cursor, last => do
      if cursor.isDone || (← hasError) then return last
      match ← commandAt run rounds depth reader cursor with
      | (value, none) => return value
      | (value, some next) => commands run rounds reader depth bound next value

/-- Refuse to nest evaluations deeper than the limit. -/
def guardDepth : Eval σ Unit := do
  let interpreter ← interpreter
  if interpreter.limits.evaluations < interpreter.depth then
    log "parse depth exceeded" [("limit", .number interpreter.limits.evaluations)]
    throw (.tooDeep ⟨interpreter.limits.evaluations, interpreter.depth⟩)

/-- Tell the host about the error with which the outermost evaluation ends. -/
def reportError : Eval σ Unit := do
  let interpreter ← interpreter
  match interpreter.active, interpreter.error, interpreter.callbacks.error with
  | [_], some error, some handle => touch (handle error)
  | _, _, _ => pure ()

/-- Take the pending result of the current frame, if there is one. -/
def takeResult : Eval σ (Option Text) := do
  match (← interpreter).currentFrame.result with
  | none => return none
  | some result =>
      change fun interpreter => interpreter.updateCurrent fun frame =>
        { frame with result := none, stopping := false }
      return some result

/-- Run a script as the innermost evaluation. -/
def scriptBody (run : Run σ) (rounds : Nat) (code : Text) (ownResult outermost : Bool) :
    Eval σ Text := do
  guardDepth
  if outermost then clearError
  if ownResult then
    change fun interpreter =>
      interpreter.updateCurrent fun frame => { frame with stopping := false }
  let reader : Reader := ⟨outermost, false⟩
  let bound := code.length + 1
  let first ← skipBlanks reader (.start code)
  let value ← commands run rounds reader bound bound first []
  reportError
  if ownResult then
    return (← takeResult).getD value
  else return value

/--
Run a script.  With `ownResult` a pending result of the current frame is its value and is taken
from the frame.
-/
def script (run : Run σ) (rounds : Nat) (code : Text) (ownResult : Bool) : Eval σ Text := do
  let saved ← inspect Interpreter.active
  if saved.isEmpty then
    change fun interpreter => { interpreter with source := code }
  change fun interpreter => { interpreter with active := 0 :: saved }
  ensuring (scriptBody run rounds code ownResult saved.isEmpty) fun machine =>
    { machine with interpreter := { machine.interpreter with active := saved } }

/-- Run a script with at most `fuel` evaluations nested and as many rounds of each loop. -/
def evaluate : Nat → Run σ
  | 0 => fun _ _ => throw .exhausted
  | fuel + 1 => script (evaluate fuel) fuel

/-- A bound that no evaluation on a real machine uses up. -/
def ampleFuel : Nat := 0x4000000000000000

/-- Run code. -/
def runCode : Run σ :=
  evaluate ampleFuel

/-- Evaluate code in a context as a host does. -/
def evaluateCode (context : Context) (code : Text) : Eval σ Evaluated :=
  evaluateIn runCode context code

end LittleScript.Eval
