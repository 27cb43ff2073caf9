import LittleScript.Proofs.Words
import LittleScript.Script.Evaluate

namespace LittleScript.Eval

/-!
# Running scripts step by step

How a script starts and ends, and the rounds in between: a command is marked, its words are read,
it is called, and the reader moves on to the next one.
-/

open Source (Cursor)

variable {σ : Type}

/-- A machine on which the innermost evaluation has its current command at an offset. -/
def marked (machine : Machine σ) (offset : Nat) : Machine σ :=
  { machine with
    interpreter :=
      { machine.interpreter with active := offset :: machine.interpreter.active.tail } }

@[simp] theorem markCommand_apply
    (offset : Nat)
    (machine : Machine σ) :
    (markCommand offset : Eval σ Unit) machine = .ok () (marked machine offset) :=
  rfl

@[simp] theorem marked_error
    (machine : Machine σ)
    (offset : Nat) :
    (marked machine offset).interpreter.error = machine.interpreter.error :=
  rfl

/-- At the end of the text there is no next command. -/
theorem nextCommand_end
    (reader : Reader)
    (offset : Nat)
    (machine : Machine σ) :
    nextCommand reader ⟨[], offset⟩ machine = .ok ⟨[], offset⟩ machine := by
  have skipped : skipBlanks reader ⟨[], offset⟩ machine = .ok ⟨[], offset⟩ machine :=
    skipBlanks_apply (Source.skipFrom_plain_nil _ _)
  rw [nextCommand, bind_of_ok skipped]
  exact skipped

/-- Commands end where the text does. -/
theorem commands_end
    (run : Run σ)
    (rounds : Nat)
    (reader : Reader)
    (depth bound offset : Nat)
    (last : Text)
    (machine : Machine σ) :
    commands run rounds reader depth bound ⟨[], offset⟩ last machine = .ok last machine := by
  cases bound with
  | zero =>
      rfl
  | succ bound =>
      rw [commands]
      simp [-bind_pure_comp, Cursor.isDone]

/-- Nothing is cancelled in a context that does not heed it, or that has not been cancelled. -/
theorem cancellation_of_uncancelled
    {machine : Machine σ}
    (uncancelled :
      machine.interpreter.context = .running → machine.world.cancellation = none) :
    cancellation machine = .ok none machine := by
  rw [cancellation]
  cases context : machine.interpreter.context with
  | background =>
      rfl
  | running =>
      simp [uncancelled context]

/-- Asking for a cancellation changes nothing. -/
theorem cancellation_unchanged
    {machine after : Machine σ}
    {cause : Option Cancellation}
    (asked : cancellation machine = .ok cause after) :
    after = machine := by
  rw [cancellation] at asked
  split at asked
  · cases asked
    rfl
  · cases asked
    rfl

/-- Call the command that has been read; a round without words has an empty value. -/
def callWords (run : Run σ) (rounds : Nat) (command : List Text) : Eval σ Text :=
  if command.isEmpty then pure [] else dispatch run rounds command

/-- Call the command that has been read, and move on unless the frame is being left. -/
def callCommand
    (run : Run σ)
    (rounds : Nat)
    (reader : Reader)
    (command : List Text)
    (after : Cursor) :
    Eval σ (Text × Option Cursor) := do
  let value ← callWords run rounds command
  if ← isStopping then return (value, none)
  return (value, some (← nextCommand reader after))

/-- A command that leaves its frame ends the script. -/
theorem callCommand_of_stopping
    {run : Run σ}
    {rounds : Nat}
    (reader : Reader)
    {command : List Text}
    (after : Cursor)
    {machine between : Machine σ}
    {value : Text}
    (called : callWords run rounds command machine = .ok value between)
    (stopping : between.interpreter.currentFrame.stopping = true) :
    callCommand run rounds reader command after machine = .ok (value, none) between := by
  rw [callCommand, bind_of_ok called, isStopping_bind_apply, stopping]
  rfl

/-- A command that stays in its frame is followed by the next one. -/
theorem callCommand_of_going
    {run : Run σ}
    {rounds : Nat}
    (reader : Reader)
    {command : List Text}
    (after : Cursor)
    {machine between : Machine σ}
    {value : Text}
    (called : callWords run rounds command machine = .ok value between)
    (going : between.interpreter.currentFrame.stopping = false) :
    callCommand run rounds reader command after machine =
      (nextCommand reader after >>= fun next => pure (value, some next)) between := by
  rw [callCommand, bind_of_ok called, isStopping_bind_apply, going]
  rfl

/-- Once its words have been read without an error, a command is called. -/
theorem commandAt_of_words
    {run : Run σ}
    (rounds : Nat)
    {reader : Reader}
    {depth : Nat}
    {cursor after : Cursor}
    {command : List Text}
    {machine ready : Machine σ}
    (uncancelled :
      machine.interpreter.context = .running → machine.world.cancellation = none)
    (read : words reader run depth cursor (marked machine cursor.offset) =
      .ok (some (command, after)) ready)
    (noError : ready.interpreter.error = none) :
    commandAt run rounds depth reader cursor machine =
      callCommand run rounds reader command after ready := by
  have asked :
      cancellation (marked machine cursor.offset) =
        .ok none (marked machine cursor.offset) :=
    cancellation_of_uncancelled uncancelled
  rw [commandAt, bind_of_ok (markCommand_apply cursor.offset machine), bind_of_ok asked]
  simp only
  rw [bind_of_ok read]
  simp only [hasError_bind_apply, noError, Option.isSome_none, Bool.false_eq_true, if_false]
  rw [callCommand, callWords]
  cases command.isEmpty <;> rfl

/-- A round that is cancelled raises an error and does nothing else. -/
theorem commandAt_of_cancelled
    (run : Run σ)
    (rounds depth : Nat)
    (reader : Reader)
    (cursor : Cursor)
    {machine : Machine σ}
    (cancelled :
      ¬ (machine.interpreter.context = .running → machine.world.cancellation = none)) :
    ∃ error world, commandAt run rounds depth reader cursor machine =
      .ok ([], none)
        ⟨{ (marked machine cursor.offset).interpreter with error := some error }, world⟩ := by
  obtain ⟨context, notNone⟩ := Classical.not_imp.mp cancelled
  obtain ⟨cause, isCause⟩ := Option.ne_none_iff_exists'.mp notNone
  have asked :
      cancellation (marked machine cursor.offset) =
        .ok (some cause) (marked machine cursor.offset) := by
    have markedContext : (marked machine cursor.offset).interpreter.context = .running := context
    have markedCause : (marked machine cursor.offset).world.cancellation = some cause := isCause
    rw [cancellation, markedContext, markedCause]
  obtain ⟨error, world, raised⟩ := raise_apply (.cancelled cause) (marked machine cursor.offset)
  refine ⟨error, world, ?_⟩
  rw [commandAt, bind_of_ok (markCommand_apply cursor.offset machine), bind_of_ok asked]
  simp only
  rw [bind_of_ok raised]
  rfl

/-- Without an error in the end a round was not cancelled, and called what it read. -/
theorem commandAt_cases
    {run : Run σ}
    {rounds : Nat}
    {reader : Reader}
    {depth : Nat}
    {cursor : Cursor}
    {machine final : Machine σ}
    {round : Text × Option Cursor}
    (ran : commandAt run rounds depth reader cursor machine = .ok round final)
    (noError : final.interpreter.error = none) :
    (machine.interpreter.context = .running → machine.world.cancellation = none) ∧
      ∃ result ready, words reader run depth cursor (marked machine cursor.offset) =
          .ok result ready ∧
        ((result = none ∧ final = ready) ∨
          ∃ command after, result = some (command, after) ∧
            ready.interpreter.error = none ∧
            callCommand run rounds reader command after ready = .ok round final) := by
  by_cases uncancelled :
      machine.interpreter.context = .running → machine.world.cancellation = none
  · rw [commandAt, bind_of_ok (markCommand_apply cursor.offset machine)] at ran
    have asked :
        cancellation (marked machine cursor.offset) =
          .ok none (marked machine cursor.offset) :=
      cancellation_of_uncancelled uncancelled
    rw [bind_of_ok asked] at ran
    refine ⟨uncancelled, ?_⟩
    obtain ⟨result, ready, read, ranRest⟩ := bind_eq_ok ran
    refine ⟨result, ready, read, ?_⟩
    cases result with
    | none =>
        cases ranRest
        exact .inl ⟨rfl, rfl⟩
    | some found =>
        obtain ⟨command, after⟩ := found
        right
        cases pending : ready.interpreter.error with
        | some error =>
            simp only [hasError_bind_apply, pending, Option.isSome_some, if_true] at ranRest
            cases ranRest
            simp [pending] at noError
        | none =>
            refine ⟨command, after, rfl, rfl, ?_⟩
            rw [← commandAt_of_words rounds uncancelled read pending, commandAt,
              bind_of_ok (markCommand_apply cursor.offset machine), bind_of_ok asked]
            exact ran
  · obtain ⟨error, world, failed⟩ :=
      commandAt_of_cancelled run rounds depth reader cursor uncancelled
    rw [failed] at ran
    cases ran
    cases noError

/-- What follows a round: the script ends with its value or goes on at the next cursor. -/
def afterRound (goOn : Cursor → Text → Eval σ Text) : Text × Option Cursor → Eval σ Text
  | (value, none) => pure value
  | (value, some next) => goOn next value

/-- The first round of commands that are left to run. -/
theorem commands_of_going
    (run : Run σ)
    (rounds : Nat)
    (reader : Reader)
    (depth bound : Nat)
    {cursor : Cursor}
    (going : cursor.rest ≠ [])
    (last : Text)
    {machine : Machine σ}
    (noError : machine.interpreter.error = none) :
    commands run rounds reader depth (bound + 1) cursor last machine =
      (commandAt run rounds depth reader cursor >>=
        afterRound (commands run rounds reader depth bound)) machine := by
  have notDone : cursor.isDone = false := by
    simpa [Cursor.isDone] using going
  rw [commands]
  simp only [notDone, hasError_bind_apply, noError, Option.isSome_none, Bool.or_self,
    Bool.false_eq_true, if_false]
  rfl

/-- Commands do not go on while an error is pending. -/
theorem commands_of_pending
    (run : Run σ)
    (rounds : Nat)
    (reader : Reader)
    (depth bound : Nat)
    (cursor : Cursor)
    (last : Text)
    {machine : Machine σ}
    (pending : machine.interpreter.error ≠ none) :
    commands run rounds reader depth bound cursor last machine = .ok last machine := by
  have failed : machine.interpreter.error.isSome = true := Option.isSome_iff_ne_none.mpr pending
  cases bound with
  | zero =>
      rfl
  | succ bound =>
      rw [commands]
      simp [-bind_pure_comp, failed]

/-- A command that takes up the whole text is called, and nothing else is. -/
theorem commands_of_whole
    {run : Run σ}
    (rounds : Nat)
    {reader : Reader}
    {depth : Nat}
    (bound : Nat)
    {cursor : Cursor}
    (going : cursor.isDone = false)
    {command : List Text}
    (named : command ≠ [])
    {ended : Nat}
    (last : Text)
    {machine ready : Machine σ}
    (noError : machine.interpreter.error = none)
    (uncancelled :
      machine.interpreter.context = .running → machine.world.cancellation = none)
    (read : words reader run depth cursor (marked machine cursor.offset) =
      .ok (some (command, ⟨[], ended⟩)) ready)
    (readUnfailed : ready.interpreter.error = none) :
    commands run rounds reader depth (bound + 1) cursor last machine =
      dispatch run rounds command ready := by
  have called := commandAt_of_words rounds uncancelled read readUnfailed
  have notEmpty : command.isEmpty = false := by
    simpa using named
  simp only [callCommand, callWords, notEmpty, Bool.false_eq_true, if_false] at called
  rw [commands]
  simp only [going, hasError_bind_apply, noError, Option.isSome_none, Bool.or_self,
    Bool.false_eq_true, if_false]
  cases dispatched : dispatch run rounds command ready with
  | error stop after =>
      rw [bind_of_error dispatched] at called
      rw [bind_of_error called]
  | ok value after =>
      rw [bind_of_ok dispatched, isStopping_bind_apply] at called
      cases stopping : after.interpreter.currentFrame.stopping with
      | true =>
          rw [stopping] at called
          rw [bind_of_ok called]
          rfl
      | false =>
          rw [stopping] at called
          simp only [Bool.false_eq_true, if_false] at called
          rw [bind_of_ok (nextCommand_end reader ended after)] at called
          rw [bind_of_ok called]
          exact commands_end run rounds reader depth bound ended value after

/-! ## Scripts -/

/-- Read and run all commands of a text. -/
def runText (run : Run σ) (rounds : Nat) (reader : Reader) (code : Text) : Eval σ Text := do
  let first ← skipBlanks reader (.start code)
  commands run rounds reader (code.length + 1) (code.length + 1) first []

/-- Get an interpreter ready for the commands of a script. -/
def prepare (ownResult outermost : Bool) : Eval σ Unit := do
  if outermost then clearError
  if ownResult then
    change fun interpreter =>
      interpreter.updateCurrent fun frame => { frame with stopping := false }

/-- Settle the value of a script: its own, unless it owns a pending result. -/
def settleValue (ownResult : Bool) (value : Text) : Eval σ Text := do
  if ownResult then return (← takeResult).getD value else return value

/-- Telling the host about an error does not change the interpreter. -/
theorem reportError_apply
    (machine : Machine σ) :
    ∃ world, reportError machine = .ok () ⟨machine.interpreter, world⟩ := by
  rw [reportError, interpreter_bind_apply]
  generalize machine.interpreter.active = active
  generalize machine.interpreter.error = error
  generalize machine.interpreter.callbacks.error = handler
  split
  · exact ⟨_, rfl⟩
  · exact ⟨machine.world, rfl⟩

/-- Settling a value takes the result that a script owns. -/
theorem settleValue_apply
    (ownResult : Bool)
    (value : Text)
    (machine : Machine σ) :
    ∃ after, settleValue ownResult value machine =
        .ok (if ownResult then machine.interpreter.currentFrame.result.getD value else value)
          after ∧
      after.interpreter.error = machine.interpreter.error := by
  cases ownResult with
  | false =>
      exact ⟨machine, rfl, rfl⟩
  | true =>
      cases result : machine.interpreter.currentFrame.result with
      | none =>
          have taken : takeResult machine = .ok none machine := by
            rw [takeResult, interpreter_bind_apply, result]
            rfl
          exact ⟨machine, bind_of_ok taken, rfl⟩
      | some provided =>
          have taken : takeResult machine = .ok (some provided)
              { machine with interpreter := machine.interpreter.updateCurrent fun frame =>
                  { frame with result := none, stopping := false } } := by
            rw [takeResult, interpreter_bind_apply, result]
            rfl
          exact ⟨_, bind_of_ok taken, rfl⟩

/-- Everything that a script does before its value is settled. -/
def runCommands (run : Run σ) (rounds : Nat) (code : Text) (ownResult outermost : Bool) :
    Eval σ Text := do
  guardDepth
  prepare ownResult outermost
  let value ← runText run rounds ⟨outermost, false⟩ code
  reportError
  return value

/-- As the innermost evaluation a script runs its commands and settles its value. -/
theorem scriptBody_eq
    (run : Run σ)
    (rounds : Nat)
    (code : Text)
    (ownResult outermost : Bool) :
    scriptBody run rounds code ownResult outermost =
      runCommands run rounds code ownResult outermost >>= settleValue ownResult := by
  cases ownResult <;> cases outermost <;>
    simp [scriptBody, runCommands, prepare, runText, settleValue]

/-- What the commands of a script start on. -/
def prepared (ownResult outermost : Bool) (machine : Machine σ) : Machine σ :=
  let interpreter :=
    if outermost then { machine.interpreter with error := none } else machine.interpreter
  { machine with interpreter :=
      if ownResult then
        interpreter.updateCurrent fun frame => { frame with stopping := false }
      else interpreter }

theorem prepare_apply
    (ownResult outermost : Bool)
    (machine : Machine σ) :
    prepare ownResult outermost machine = .ok () (prepared ownResult outermost machine) := by
  cases ownResult <;> cases outermost <;> rfl

/-- An evaluation within the limit goes on. -/
theorem guardDepth_of_within
    {machine : Machine σ}
    (within : machine.interpreter.depth ≤ machine.interpreter.limits.evaluations) :
    guardDepth machine = .ok () machine := by
  rw [guardDepth, interpreter_bind_apply, if_neg (Nat.not_lt.mpr within)]
  rfl

/-- An evaluation beyond the limit stops. -/
theorem guardDepth_of_beyond
    {machine : Machine σ}
    (beyond : machine.interpreter.limits.evaluations < machine.interpreter.depth) :
    ∃ after, guardDepth machine =
      .error (.tooDeep ⟨machine.interpreter.limits.evaluations, machine.interpreter.depth⟩)
        after := by
  rw [guardDepth, interpreter_bind_apply, if_pos beyond]
  exact ⟨_, rfl⟩

/-- A script within the limit runs the commands of its text. -/
theorem runCommands_of_within
    (run : Run σ)
    (rounds : Nat)
    (code : Text)
    (ownResult outermost : Bool)
    {machine : Machine σ}
    (within : machine.interpreter.depth ≤ machine.interpreter.limits.evaluations) :
    runCommands run rounds code ownResult outermost machine =
      (runText run rounds ⟨outermost, false⟩ code >>= fun value =>
        reportError >>= fun _ => pure value) (prepared ownResult outermost machine) := by
  rw [runCommands, bind_of_ok (guardDepth_of_within within),
    bind_of_ok (prepare_apply ownResult outermost machine)]

/-- Only a script within the limit runs its commands. -/
theorem runCommands_eq_ok
    {run : Run σ}
    {rounds : Nat}
    {code : Text}
    {ownResult outermost : Bool}
    {machine final : Machine σ}
    {value : Text}
    (ran : runCommands run rounds code ownResult outermost machine = .ok value final) :
    machine.interpreter.depth ≤ machine.interpreter.limits.evaluations ∧
      ∃ between world, runText run rounds ⟨outermost, false⟩ code
          (prepared ownResult outermost machine) = .ok value between ∧
        final = ⟨between.interpreter, world⟩ := by
  by_cases within : machine.interpreter.depth ≤ machine.interpreter.limits.evaluations
  · rw [runCommands_of_within run rounds code ownResult outermost within] at ran
    obtain ⟨last, between, ranText, reported⟩ := bind_eq_ok ran
    obtain ⟨world, told⟩ := reportError_apply between
    rw [bind_of_ok told] at reported
    cases reported
    exact ⟨within, between, world, ranText, rfl⟩
  · obtain ⟨stopped, refused⟩ := guardDepth_of_beyond (Nat.lt_of_not_le within)
    rw [runCommands, bind_of_error refused] at ran
    cases ran

/-! ## Calling a command -/

/-- Call a command as an interpreter has it. -/
def callAs (interpreter : Interpreter σ) (run : Run σ) (rounds : Nat) (command : List Text) :
    Eval σ Text := do
  match interpreter.commands.get? (command.headD []) with
  | some id =>
      match interpreter.function? id with
      | some ⟨_, .builtin builtin⟩ => settle (← callBuiltin run rounds builtin command.tail)
      | some ⟨_, .host action⟩ => settle (← perform run (action command.tail))
      | some ⟨name, .script parameters body⟩ =>
          callScript run id name parameters body command.tail
      | none => return []
  | none =>
      if (command.headD []).isEmpty then return []
      if interpreter.catcher.isEmpty then
        raise (.unknownCommand (command.headD []))
        return []
      callCatcher run command

/-- Commands are called as the interpreter has them. -/
theorem dispatch_eq
    (run : Run σ)
    (rounds : Nat)
    (command : List Text) :
    dispatch run rounds command =
      interpreter >>= fun interpreter => callAs interpreter run rounds command :=
  rfl

/-- The first word of a command means the built-in command that is called. -/
theorem dispatch_of_command?
    (run : Run σ)
    (rounds : Nat)
    (command : List Text)
    {machine : Machine σ}
    {title : Text}
    {builtin : Builtin}
    (means : machine.interpreter.command? (command.headD []) = some ⟨title, .builtin builtin⟩) :
    dispatch run rounds command machine =
      (callBuiltin run rounds builtin command.tail >>= settle) machine := by
  obtain ⟨id, named, found⟩ := Option.bind_eq_some_iff.mp means
  simp only [dispatch, interpreter_bind_apply, named, found]

/-! ## Entering and leaving a script -/

/-- What the body of a script starts on. -/
def entered (code : Text) (machine : Machine σ) : Machine σ :=
  { machine with interpreter :=
    { machine.interpreter with
      source := if machine.interpreter.active.isEmpty then code else machine.interpreter.source
      active := 0 :: machine.interpreter.active } }

/-- What a script leaves when its body leaves `after`. -/
def left (machine after : Machine σ) : Machine σ :=
  { after with interpreter :=
    { after.interpreter with active := machine.interpreter.active } }

/-- A script runs its body as one more active evaluation. -/
theorem script_apply
    (run : Run σ)
    (rounds : Nat)
    (code : Text)
    (ownResult : Bool)
    (machine : Machine σ) :
    script run rounds code ownResult machine =
      ensuring (scriptBody run rounds code ownResult machine.interpreter.active.isEmpty)
        (left machine) (entered code machine) := by
  simp only [script, inspect_bind_apply, entered]
  split
  · rfl
  · rfl

end LittleScript.Eval
