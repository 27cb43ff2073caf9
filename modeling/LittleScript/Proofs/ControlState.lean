import LittleScript.Proofs.NestedCalls
import LittleScript.Script.Host

namespace LittleScript

/-!
# Control state

The control state of an interpreter says where it is: in which frame, whence it went up, at which
command of each running evaluation, in how many catchers and in which context.  Every evaluation
puts it back, however it ends, and nesting evaluations too deeply always reaches the host.
-/

variable {σ : Type}

/-- The control state of an interpreter; evaluations nest as deeply as there are active ones. -/
structure Control where
  current : FrameId
  down : Option FrameId
  active : List Nat
  catchers : Nat
  context : Context
  deriving Repr, DecidableEq

namespace Interpreter

/-- The control state of an interpreter. -/
def control (interpreter : Interpreter σ) : Control where
  current := interpreter.current
  down := interpreter.down
  active := interpreter.active
  catchers := interpreter.catchers
  context := interpreter.context

/-- The control state apart from where the innermost evaluation has its current command. -/
def enclosing (interpreter : Interpreter σ) : Control :=
  { interpreter.control with active := interpreter.active.tail }

theorem enclosing_of_control
    {before after : Interpreter σ}
    (same : after.control = before.control) :
    after.enclosing = before.enclosing := by
  have sameActive : after.active = before.active := congrArg Control.active same
  rw [enclosing, enclosing, same, sameActive]

end Interpreter

namespace Eval

/-- A step changes the control state only in where the innermost evaluation is. -/
theorem Step.enclosing
    {reach : FrameId → Bool}
    {update : Interpreter σ → Interpreter σ}
    (step : Step reach update)
    (interpreter : Interpreter σ) :
    (update interpreter).enclosing = interpreter.enclosing := by
  cases step with
  | rename old new =>
      obtain ⟨functions, commands, renamed⟩ := interpreter.rename_getD_eq old new
      simp only [renamed]
      rfl
  | _ =>
      rfl

/-- The control state lasts over scripts. -/
theorem control_lasting :
    LastingScript (σ := σ)
      (fun before after => after.control = before.control)
      (fun before after => after.enclosing = before.enclosing) where
  refl _ := rfl
  trans _ _ _ first second := second.trans first
  step := Step.enclosing
  error _ _ := rfl
  inFrame interpreter after frame down inside := by
    simp only [Interpreter.enclosing, Interpreter.control, Control.mk.injEq] at inside ⊢
    simp [inside]
  inNewFrame interpreter after frame inside := by
    simp only [Interpreter.enclosing, Interpreter.control, Control.mk.injEq] at inside ⊢
    simp [inside, Interpreter.addFrame, Interpreter.updateFrame]
  runWatch interpreter after frame inside := by
    simp only [Interpreter.enclosing, Interpreter.control, Control.mk.injEq] at inside ⊢
    simp [inside]
  inCatcher interpreter after inside := by
    simp only [Interpreter.enclosing, Interpreter.control, Control.mk.injEq] at inside ⊢
    simp [inside]
  outerRefl _ := rfl
  within _ _ := Interpreter.enclosing_of_control
  enclose interpreter after source inside := by
    simp only [Interpreter.enclosing, Interpreter.control, Control.mk.injEq] at inside ⊢
    simp [inside]

/-! ## Evaluations of a host -/

/-- What performing an action leaves. -/
theorem perform_snd
    {α : Type}
    (machine : Machine σ)
    (action : Eval σ α) :
    (machine.perform action).2 = final action machine := by
  rw [Machine.perform, final]
  cases action machine with
  | ok value after =>
      rfl
  | error stop after =>
      rfl

/-- Catching a nesting too deep leaves the interpreter as it is. -/
theorem final_catchTooDeep
    (action : Eval σ Evaluated)
    (machine : Machine σ) :
    (final (catchTooDeep action) machine).interpreter = (final action machine).interpreter := by
  rw [final, final, catchTooDeep]
  cases action machine with
  | ok value after =>
      rfl
  | error stop after =>
      cases stop with
      | tooDeep error =>
          rfl
      | crash =>
          rfl
      | exhausted =>
          rfl

/-- The call with which an evaluation in a context starts. -/
def outermostCall (context : Context) (code : Text) (machine : Machine σ) : Call σ where
  code := code
  ownResult := true
  machine := { machine with interpreter := { machine.interpreter with context } }

/-- What an evaluation leaves when its run leaves `after`. -/
def restored (machine after : Machine σ) : Machine σ :=
  { after with interpreter := { after.interpreter with context := machine.interpreter.context } }

/-- An evaluation on an idle interpreter runs the code and reports nesting too deep. -/
theorem evaluateIn_of_idle
    (run : Run σ)
    (context : Context)
    (code : Text)
    {machine : Machine σ}
    (idle : machine.interpreter.active = []) :
    evaluateIn run context code machine =
      catchTooDeep (ensuring (runReporting run code) (restored machine))
        (outermostCall context code machine).machine := by
  have isIdle : machine.interpreter.active.isEmpty = true := by
    rw [idle, List.isEmpty_nil]
  simp only [evaluateIn, inspect_bind_apply, change_bind_apply, isIdle, if_true]
  rfl

/-- How an evaluation on an idle interpreter ends, from how the run of its code does. -/
theorem perform_evaluateIn
    (run : Run σ)
    (context : Context)
    (code : Text)
    {machine : Machine σ}
    (idle : machine.interpreter.active = []) :
    (machine.perform (evaluateIn run context code)).1 =
      match run code true (outermostCall context code machine).machine with
      | .ok value after => .finished ⟨value, after.interpreter.error.map .script⟩
      | .error (.tooDeep error) _ => .finished ⟨[], some (.fatal error)⟩
      | .error stop _ => .stopped stop := by
  rw [Machine.perform, evaluateIn_of_idle run context code idle, catchTooDeep, ensuring,
    runReporting]
  cases ran : run code true (outermostCall context code machine).machine with
  | ok value after =>
      rw [bind_of_ok ran]
      rfl
  | error stop after =>
      rw [bind_of_error ran]
      cases stop with
      | tooDeep error =>
          rfl
      | crash =>
          rfl
      | exhausted =>
          rfl

/--
What an evaluation leaves comes from its run of the code.  Only the outermost evaluation catches,
which does not matter for the interpreter.
-/
theorem final_evaluateIn
    (run : Run σ)
    (context : Context)
    (code : Text)
    (machine : Machine σ) :
    (final (evaluateIn run context code) machine).interpreter =
      (restored machine
        (final (run code true) (outermostCall context code machine).machine)).interpreter := by
  have reported :
      final (runReporting run code) (outermostCall context code machine).machine =
        final (run code true) (outermostCall context code machine).machine := by
    rw [final, final, runReporting]
    cases ran : run code true (outermostCall context code machine).machine with
    | ok value after =>
        rw [bind_of_ok ran]
        rfl
    | error stop after =>
        rw [bind_of_error ran]
  have whole :
      (final (evaluateIn run context code) machine).interpreter =
        (final (ensuring (runReporting run code) (restored machine))
          (outermostCall context code machine).machine).interpreter := by
    by_cases isIdle : machine.interpreter.active.isEmpty = true
    · rw [← final_catchTooDeep (ensuring (runReporting run code) (restored machine)), final, final,
        evaluateIn_of_idle run context code (List.isEmpty_iff.mp isIdle)]
    · simp only [final, evaluateIn, inspect_bind_apply, change_bind_apply, isIdle]
      rfl
  rw [whole, final_ensuring, reported]

/-- Nesting too deep ends an evaluation on an idle interpreter as a fatal error. -/
theorem perform_of_tooDeep
    {run : Run σ}
    {context : Context}
    {code : Text}
    {machine after : Machine σ}
    (idle : machine.interpreter.active = [])
    {error : FatalError}
    (stopped : run code true (outermostCall context code machine).machine =
      .error (.tooDeep error) after) :
    (machine.perform (evaluateIn run context code)).1 = .finished ⟨[], some (.fatal error)⟩ := by
  have reported : runReporting run code (outermostCall context code machine).machine =
      .error (.tooDeep error) after := by
    rw [runReporting, bind_of_error stopped]
  rw [Machine.perform, evaluateIn_of_idle run context code idle, catchTooDeep, ensuring, reported]
  rfl

/-- An evaluation puts the control state back. -/
theorem control_evaluateIn
    (fuel : Nat)
    (context : Context)
    (code : Text)
    {machine : Machine σ}
    (free : machine.interpreter.HostFree) :
    (final (evaluateIn (evaluate fuel) context code) machine).interpreter.control =
      machine.interpreter.control := by
  have kept := (control_lasting.evaluate fuel code true
    (outermostCall context code machine).machine free).2
  simp only [Interpreter.control, Control.mk.injEq] at kept
  obtain ⟨current, down, active, catchers, -⟩ := kept
  rw [final_evaluateIn]
  simp only [Interpreter.control, Control.mk.injEq]
  exact ⟨current, down, active, catchers, rfl⟩

/--
Every evaluation that a host starts on an idle interpreter without host commands puts the control
state back, however it ends; and if a call nested in it on this interpreter is beyond the limit,
then the evaluation ends with the fatal error that says so.
-/
theorem evaluation_restores_control
    (fuel : Nat)
    (context : Context)
    (code : Text)
    (machine : Machine σ)
    (free : machine.interpreter.HostFree)
    (idle : machine.interpreter.active = []) :
    (machine.perform (evaluateIn (evaluate fuel) context code)).2.interpreter.control =
        machine.interpreter.control ∧
      ∀ (remaining : Nat) (call : Call σ),
        Nested fuel (outermostCall context code machine) (remaining + 1) call →
        call.machine.interpreter.limits.evaluations < call.machine.interpreter.depth + 1 →
        (machine.perform (evaluateIn (evaluate fuel) context code)).1 =
          .finished ⟨[], some (.fatal ⟨call.machine.interpreter.limits.evaluations,
            call.machine.interpreter.depth + 1⟩)⟩ := by
  constructor
  · rw [perform_snd]
    exact control_evaluateIn fuel context code free
  · intro remaining call nested exceeds
    obtain ⟨stoppedAt, stopped⟩ := evaluate_tooDeep remaining call (Nat.le_of_lt_succ exceeds)
    obtain ⟨after, ended⟩ := nested.stops free stopped
    exact perform_of_tooDeep idle ended

/-! ## A script with nested code -/

/-- The script whose only word is the value of nested code. -/
def bracketed : Text :=
  [Byte.openBracket, 0x78, Byte.closeBracket]

/-- Where the nested code of that script starts. -/
def bracketedStart (machine : Machine σ) : Machine σ :=
  { machine with interpreter :=
    { machine.interpreter.updateCurrent fun frame => { frame with stopping := false } with
      source := bracketed, active := [0], error := none } }

/-- A stop of the nested code stops reading the words of the script. -/
theorem words_bracketed_stops
    {run : Run σ}
    (reader : Reader)
    (bound : Nat)
    {machine after : Machine σ}
    {stop : Stop}
    (noError : machine.interpreter.error = none)
    (stopped : run [0x78] false machine = .error stop after) :
    words reader run (bound + 1) (.start bracketed) machine = .error stop after := by
  have started :
      skipBlanks reader (.start bracketed) machine = .ok (.start bracketed) machine :=
    skipBlanks_of_startsWord reader _ 0 (by decide) machine
  have partStops : part reader run (bound + 1) (.start bracketed) machine = .error stop after := by
    rw [part, bind_of_ok started]
    exact bind_of_error stopped
  have wordStops :
      word reader run (bound + 1) (bound + 1) (.start bracketed) [] machine =
        .error stop after := by
    rw [word, bind_of_error partStops]
  have goesOn : ((Source.Cursor.start bracketed).isDone ||
      (!reader.acrossLines && (Source.Cursor.start bracketed).isOn Byte.isSeparator)) = false := by
    cases reader.acrossLines <;> decide
  rw [words, bind_of_ok started, wordsFrom]
  simp only [goesOn, hasError_bind_apply, noError, Option.isSome_none, Bool.or_self,
    Bool.false_eq_true, if_false]
  rw [bind_of_error wordStops]

/-- A stop of the nested code stops the script that makes no other call. -/
theorem script_bracketed_stops
    {run : Run σ}
    (rounds : Nat)
    {machine after : Machine σ}
    {stop : Stop}
    (idle : machine.interpreter.active = [])
    (background : machine.interpreter.context = .background)
    (allowed : 0 < machine.interpreter.limits.evaluations)
    (stopped : run [0x78] false (bracketedStart machine) = .error stop after) :
    script run rounds bracketed true machine = .error stop (left machine after) := by
  have isEntered : entered bracketed machine = { machine with interpreter :=
      { machine.interpreter with source := bracketed, active := [0] } } := by
    simp [entered, idle]
  have read := words_bracketed_stops ⟨true, false⟩ bracketed.length rfl stopped
  have asked : cancellation (bracketedStart machine) = .ok none (bracketedStart machine) :=
    cancellation_of_uncancelled fun running => by cases background.symm.trans running
  have called : commandAt run rounds (bracketed.length + 1) ⟨true, false⟩ (.start bracketed)
      (bracketedStart machine) = .error stop after := by
    rw [commandAt]
    refine (bind_of_ok (markCommand_apply 0 (bracketedStart machine))).trans ?_
    exact (bind_of_ok asked).trans (bind_of_error read)
  have ran : runText run rounds ⟨true, false⟩ bracketed (bracketedStart machine) =
      .error stop after := by
    have started : skipBlanks ⟨true, false⟩ (.start bracketed) (bracketedStart machine) =
        .ok (.start bracketed) (bracketedStart machine) :=
      skipBlanks_of_startsWord _ _ 0 (by decide) _
    have noError : (bracketedStart machine).interpreter.error = none := rfl
    have going : (Source.Cursor.start bracketed).isDone = false := rfl
    rw [runText, bind_of_ok started, commands]
    simp only [going, hasError_bind_apply, noError, Option.isSome_none, Bool.or_self,
      Bool.false_eq_true, if_false]
    rw [bind_of_error called]
  have body : scriptBody run rounds bracketed true true (entered bracketed machine) =
      .error stop after := by
    have commandsStop : runCommands run rounds bracketed true true (entered bracketed machine) =
        .error stop after := by
      rw [runCommands_of_within _ _ _ _ _ (by rw [isEntered]; exact allowed), isEntered]
      exact bind_of_error ran
    rw [scriptBody_eq, bind_of_error commandsStop]
  rw [script_apply, idle, List.isEmpty_nil, ensuring, body]

/-- The script makes the call of its nested code. -/
theorem makes_bracketed
    (fuel : Nat)
    (machine : Machine σ)
    (idle : machine.interpreter.active = [])
    (background : machine.interpreter.context = .background)
    (limit : machine.interpreter.limits.evaluations = 1) :
    Makes (fun run => script run (fuel + 1) bracketed true) (evaluate (fuel + 1)) machine
      ⟨[0x78], false, bracketedStart machine⟩ := by
  have allowed : 0 < machine.interpreter.limits.evaluations := by
    simp [limit]
  obtain ⟨after, stopped⟩ := evaluate_tooDeep fuel ⟨[0x78], false, bracketedStart machine⟩
    (Nat.le_of_eq limit)
  refine ⟨.error .crash (bracketedStart machine), ?_⟩
  have crashed : answering (evaluate (fuel + 1)) ⟨[0x78], false, bracketedStart machine⟩
      (.error .crash (bracketedStart machine)) [0x78] false (bracketedStart machine) =
        .error .crash (bracketedStart machine) :=
    if_pos rfl
  simp only [script_bracketed_stops (fuel + 1) idle background allowed crashed,
    script_bracketed_stops (fuel + 1) idle background allowed stopped]
  simp

/-- A machine on which no two evaluations may be nested. -/
def shallow : Machine Unit where
  interpreter := .fresh { evaluations := 1 } {}
  world := { host := () }

/--
An evaluation that is nested too deeply ends with the fatal error, and restores the control state.
-/
theorem evaluation_restores_control_shallow :
    (shallow.perform (evaluateIn (evaluate 2) .background bracketed)).2.interpreter.control =
        ⟨rootFrame, none, [], 0, .background⟩ ∧
      (shallow.perform (evaluateIn (evaluate 2) .background bracketed)).1 =
        .finished ⟨[], some (.fatal ⟨1, 2⟩)⟩ := by
  obtain ⟨functions, commands, system, isFresh⟩ :=
    Interpreter.fresh_eq (σ := Unit) { evaluations := 1 } {}
  have free := Interpreter.HostFree.fresh (σ := Unit) { evaluations := 1 } {}
  rw [shallow, isFresh]
  rw [isFresh] at free
  obtain ⟨restores, fatal⟩ := evaluation_restores_control 2 .background bracketed
    ⟨{ limits := { evaluations := 1 }, functions, commands, system }, { host := () }⟩ free rfl
  have makes := makes_bracketed 0
    ⟨{ limits := { evaluations := 1 }, functions, commands, system }, { host := () }⟩ rfl rfl rfl
  exact ⟨restores, fatal 0 _ (.deeper makes (by simp [bracketedStart]) (.here 1 _)) Nat.one_lt_two⟩

end Eval

end LittleScript
