import LittleScript.Proofs.Commands

namespace LittleScript.Eval

/-!
# Evaluation with another dispatcher

An evaluation meets commands in one place only: where their words have been read and no error is
pending.  Here that place is a parameter, so that one can ask what an evaluation does with other
commands in place of its own, and on which machines it calls commands at all.
-/

open Source (Cursor)

variable {σ : Type}

/-- A way to call commands, given a way to run nested code and a bound on the rounds of a loop. -/
abbrev Dispatcher (σ : Type) := Run σ → Nat → List Text → Eval σ Text

section Via

variable (call : List Text → Eval σ Text) (run : Run σ)

/-- Run the command at the cursor, called this way. -/
def commandAtVia (bound : Nat) (reader : Reader) (cursor : Cursor) :
    Eval σ (Text × Option Cursor) := do
  markCommand cursor.offset
  match ← cancellation with
  | some cause =>
      raise (.cancelled cause)
      return ([], none)
  | none =>
      match ← words reader run bound cursor with
      | none => return ([], none)
      | some (command, after) =>
          if ← hasError then return ([], none)
          let value ← if command.isEmpty then pure [] else call command
          if ← isStopping then return (value, none)
          return (value, some (← nextCommand reader after))

/-- Run commands, called this way. -/
def commandsVia (reader : Reader) (depth : Nat) : Nat → Cursor → Text → Eval σ Text
  | 0, _, last => return last
  | bound + 1, cursor, last => do
      if cursor.isDone || (← hasError) then return last
      match ← commandAtVia call run depth reader cursor with
      | (value, none) => return value
      | (value, some next) => commandsVia reader depth bound next value

/-- Run a script as the innermost evaluation, its commands called this way. -/
def scriptBodyVia (code : Text) (ownResult outermost : Bool) : Eval σ Text := do
  guardDepth
  prepare ownResult outermost
  let reader : Reader := ⟨outermost, false⟩
  let first ← skipBlanks reader (.start code)
  let value ← commandsVia call run reader (code.length + 1) (code.length + 1) first []
  reportError
  settleValue ownResult value

/-- Run a script, its commands called this way. -/
def scriptVia (code : Text) (ownResult : Bool) : Eval σ Text :=
  fun machine =>
    ensuring (scriptBodyVia call run code ownResult machine.interpreter.active.isEmpty)
      (left machine) (entered code machine)

end Via

/-- Run code in which a dispatcher calls the commands, those of nested code included. -/
def evaluateVia (dispatcher : Dispatcher σ) : Nat → Run σ
  | 0 => fun _ _ => throw .exhausted
  | fuel + 1 =>
      scriptVia (dispatcher (evaluateVia dispatcher fuel) fuel) (evaluateVia dispatcher fuel)

/-! ## The dispatcher of scripts -/

theorem commandsVia_dispatch
    (run : Run σ)
    (rounds : Nat)
    (reader : Reader)
    (depth bound : Nat) :
    ∀ (cursor : Cursor) (last : Text),
      commandsVia (dispatch run rounds) run reader depth bound cursor last =
        commands run rounds reader depth bound cursor last := by
  induction bound with
  | zero =>
      exact fun _ _ => rfl
  | succ bound inductionHypothesis =>
      intro cursor last
      simp only [commandsVia, commands, inductionHypothesis]
      rfl

theorem scriptVia_dispatch
    (run : Run σ)
    (rounds : Nat)
    (code : Text)
    (ownResult : Bool) :
    scriptVia (dispatch run rounds) run code ownResult = script run rounds code ownResult := by
  funext machine
  have body :
      scriptBodyVia (dispatch run rounds) run code ownResult machine.interpreter.active.isEmpty =
        scriptBody run rounds code ownResult machine.interpreter.active.isEmpty := by
    rw [scriptBody_eq]
    simp only [scriptBodyVia, runCommands, runText, commandsVia_dispatch, bind_assoc, pure_bind]
  rw [script_apply, scriptVia, body]

/-- With the dispatcher of scripts this is how code is run. -/
theorem evaluateVia_dispatch
    (fuel : Nat) :
    evaluateVia (σ := σ) dispatch fuel = evaluate fuel := by
  induction fuel with
  | zero =>
      rfl
  | succ fuel inductionHypothesis =>
      funext code ownResult
      rw [evaluateVia, evaluate, inductionHypothesis]
      exact scriptVia_dispatch (evaluate fuel) fuel code ownResult

/-! ## Where commands are called -/

/-- Two ways to call commands agree wherever no error is pending. -/
def AgreeUnfailed (call other : List Text → Eval σ Text) : Prop :=
  ∀ command (machine : Machine σ), machine.interpreter.error = none →
    call command machine = other command machine

section Agreement

variable {call other : List Text → Eval σ Text}

/-- A command is called only where no error is pending. -/
theorem commandAtVia_congr
    (agree : AgreeUnfailed call other)
    (run : Run σ)
    (bound : Nat)
    (reader : Reader)
    (cursor : Cursor) :
    commandAtVia call run bound reader cursor = commandAtVia other run bound reader cursor := by
  rw [commandAtVia, commandAtVia]
  refine congrArg _ (funext fun _ => congrArg _ (funext fun cause => ?_))
  cases cause with
  | some cause =>
      rfl
  | none =>
      refine congrArg (words reader run bound cursor >>= ·) (funext fun read => ?_)
      cases read with
      | none =>
          rfl
      | some read =>
          funext machine
          simp only [hasError_bind_apply]
          cases pending : machine.interpreter.error with
          | some error =>
              rfl
          | none =>
              simp only [Option.isSome_none, Bool.false_eq_true, if_false]
              cases read.1.isEmpty with
              | true =>
                  rfl
              | false =>
                  simp only [Bool.false_eq_true, if_false, bind, EStateM.bind,
                    agree read.1 machine pending]

theorem commandsVia_congr
    (agree : AgreeUnfailed call other)
    (run : Run σ)
    (reader : Reader)
    (depth bound : Nat) :
    ∀ (cursor : Cursor) (last : Text),
      commandsVia call run reader depth bound cursor last =
        commandsVia other run reader depth bound cursor last := by
  induction bound with
  | zero =>
      exact fun _ _ => rfl
  | succ bound inductionHypothesis =>
      intro cursor last
      simp only [commandsVia, commandAtVia_congr agree, inductionHypothesis]

theorem scriptVia_congr
    (agree : AgreeUnfailed call other)
    (run : Run σ)
    (code : Text)
    (ownResult : Bool) :
    scriptVia call run code ownResult = scriptVia other run code ownResult := by
  funext machine
  simp only [scriptVia, scriptBodyVia, commandsVia_congr agree]

end Agreement

/-- What a dispatcher does while an error is pending does not matter to any evaluation. -/
theorem evaluateVia_of_agree
    {dispatcher : Dispatcher σ}
    (agree : ∀ run rounds, AgreeUnfailed (dispatcher run rounds) (dispatch run rounds))
    (fuel : Nat) :
    evaluateVia dispatcher fuel = evaluate fuel := by
  induction fuel with
  | zero =>
      rfl
  | succ fuel inductionHypothesis =>
      funext code ownResult
      rw [evaluateVia, evaluate, inductionHypothesis, scriptVia_congr (agree _ _)]
      exact scriptVia_dispatch (evaluate fuel) fuel code ownResult

end LittleScript.Eval
