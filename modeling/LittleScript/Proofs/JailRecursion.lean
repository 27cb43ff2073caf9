import LittleScript.Proofs.CommandTables
import LittleScript.Proofs.NestingBound
import LittleScript.Proofs.SubstitutedValues

namespace LittleScript

/-!
# Recursion through jails

Each jail counts its own evaluations, and code can ask for its own text.  So code that runs itself
in a jail stays within every limit of two evaluations or more: the evaluations that are active
together are as many as there is fuel for, and no bound is large enough for them to end.
-/

variable {σ : Type}

namespace Interpreter

/-- A fresh interpreter has each built-in command under its name. -/
theorem command?_fresh
    (limits : Limits)
    (callbacks : Callbacks σ)
    (command : Builtin) :
    ∃ title, (fresh limits callbacks).command? command.name =
      some ⟨title, .builtin command⟩ := by
  have defined : (fresh limits callbacks).definition? command.name = some (.builtin command) :=
    (definition?_fresh limits callbacks).mpr ⟨command, rfl, rfl⟩
  obtain ⟨⟨title, definition⟩, found, isBuiltin⟩ := Option.map_eq_some_iff.mp defined
  cases isBuiltin
  exact ⟨title, found⟩

/-- It takes none of its commands for those of a host. -/
theorem hostCommands_fresh
    (limits : Limits)
    (callbacks : Callbacks σ) :
    (fresh limits callbacks).hostCommands = [] := by
  refine (Unregistered.fresh limits callbacks).hostCommands_eq_nil_iff.mpr
    fun name command defined => ?_
  obtain ⟨other, isName, same⟩ := (definition?_fresh limits callbacks).mp defined
  cases same
  exact isName

end Interpreter

namespace Eval

/-! ## Code that runs itself in a jail -/

/-- The command that asks for the code that is running. -/
def askCode : Text :=
  ListText.write [Builtin.name .reflect, Text.ofString "this"]

/-- The code `jaileval [reflect this]`. -/
def selfJailing : Text :=
  Text.ofString "jaileval [reflect this]"

/-- Its only command: the word that opens a jail, and a word that is substituted. -/
def selfJailingLine : CommandLine where
  first := ⟨Builtin.name .jailEvaluate, [], by decide +kernel, by decide +kernel, by decide +kernel⟩
  others := [{
    moreSpaces := 0
    word := {
      bare := []
      parts := [.substituted (.command askCode (.of_unmarked (by decide +kernel)))]
      isBare := by simp
      starts := by simp
      notEmpty := by simp } }]

theorem selfJailing_eq :
    selfJailing = selfJailingLine.text := by
  decide +kernel

/-- What the words of the code are read on. -/
def readOn (machine : Machine σ) : Machine σ :=
  marked (prepared true true (entered selfJailing machine)) 0

/-- What its command is called on: the question for the code has been counted. -/
def openedOn (machine : Machine σ) : Machine σ :=
  { readOn machine with
    interpreter.statistics.successes :=
      (readOn machine).interpreter.statistics.successes + 1 }

/-- In the root frame the question for the running code is answered with the outermost code. -/
theorem reflect_this
    {machine : Machine σ}
    (atRoot : machine.interpreter.callerFrame = rootFrame)
    (notCatching : (machine.interpreter.frame rootFrame).catching = none) :
    Command.reflect [Text.ofString "this"] machine =
      .ok (.value machine.interpreter.source) machine := by
  have topic : Command.Topic.ofWord? (Text.ofString "this") = some .code := by
    decide +kernel
  have running : Command.runningCode machine.interpreter = machine.interpreter.source := by
    simp [Command.runningCode, atRoot, notCatching]
  simp only [Command.reflect, topic, interpreter_bind_apply]
  exact congrArg (fun value => EStateM.Result.ok (Reply.value value) machine) running

/-- A machine on which nothing has been done yet, and two evaluations may be nested. -/
structure Unused (machine : Machine σ) : Prop where
  free : machine.interpreter.HostFree
  asks : ∃ title, machine.interpreter.command? (Builtin.name .reflect) =
    some ⟨title, .builtin .reflect⟩
  opens : ∃ title, machine.interpreter.command? (Builtin.name .jailEvaluate) =
    some ⟨title, .builtin .jailEvaluate⟩
  isNew : ∃ limits callbacks functions commands system, 1 < limits.evaluations ∧
    machine.interpreter = { limits, callbacks, functions, commands, system }

theorem Unused.ready
    {machine : Machine σ}
    (unused : Unused machine) :
    Ready machine := by
  obtain ⟨free, -, -, limits, callbacks, functions, commands, system, roomy, isNew⟩ := unused
  refine ⟨free, ?_, ?_, ?_⟩
  · rw [isNew]
  · rw [isNew]
  · rw [isNew]
    exact Nat.zero_lt_of_lt roomy

/-- The code gets its own text. -/
theorem evaluate_askCode
    {machine : Machine σ}
    (unused : Unused machine)
    (fuel : Nat) :
    evaluate (fuel + 1) askCode false (readOn machine) = .ok selfJailing (openedOn machine) := by
  obtain ⟨-, ⟨title, means⟩, -, limits, callbacks, functions, commands, system, roomy, isNew⟩ :=
    unused
  obtain ⟨interpreter, world⟩ := machine
  obtain rfl : interpreter = _ := isNew
  let machine : Machine σ := ⟨{ limits, callbacks, functions, commands, system }, world⟩
  let asking : Machine σ := calledOn askCode false (readOn machine)
  have called : dispatch (evaluate fuel) fuel [Builtin.name .reflect, Text.ofString "this"] asking =
      (callBuiltin (evaluate fuel) fuel .reflect [Text.ofString "this"] >>= settle) asking :=
    dispatch_of_command? (evaluate fuel) fuel _ means
  have answered : Command.reflect [Text.ofString "this"] asking =
      .ok (.value selfJailing) asking :=
    reflect_this rfl rfl
  let counted : Machine σ :=
    { asking with
      interpreter.statistics.successes := asking.interpreter.statistics.successes + 1 }
  have settled : (callBuiltin (evaluate fuel) fuel .reflect [Text.ofString "this"] >>= settle)
      asking = .ok selfJailing counted :=
    bind_of_ok answered
  have reported : reportError counted = .ok () counted := rfl
  have within : (readOn machine).interpreter.depth <
      (readOn machine).interpreter.limits.evaluations := roomy
  have body : (dispatch (evaluate fuel) fuel [Builtin.name .reflect, Text.ofString "this"] >>=
      fun value => reportError >>= fun _ => settleValue false value) asking =
        .ok selfJailing counted :=
    (bind_of_ok (called.trans settled)).trans (bind_of_ok reported)
  exact (script_written (evaluate fuel) fuel (Builtin.name .reflect) [Text.ofString "this"] false
    within rfl nofun).trans (ensuring_of_ok (left (readOn machine)) body)

/-- The call of the code in the jail that it opens. -/
def selfCall (machine : Machine σ) : Call σ :=
  jailedCall selfJailing false (openedOn machine)

/-- If its text is read and running it again stops, the code stops. -/
theorem script_selfJailing_stops
    {run : Run σ}
    (rounds : Nat)
    {machine after : Machine σ}
    (unused : Unused machine)
    {stop : Stop}
    (reads : run askCode false (readOn machine) = .ok selfJailing (openedOn machine))
    (stopped : run selfJailing true (selfCall machine).machine = .error stop after)
    (notDeep : ∀ error, stop ≠ .tooDeep error) :
    ∃ ended, script run rounds selfJailing true machine = .error stop ended := by
  have ready := unused.ready
  obtain ⟨-, -, ⟨title, means⟩, limits, callbacks, functions, commands, system, -, isNew⟩ := unused
  obtain ⟨interpreter, world⟩ := machine
  obtain rfl : interpreter = _ := isNew
  let machine : Machine σ := ⟨{ limits, callbacks, functions, commands, system }, world⟩
  obtain ⟨ended, jailStopped⟩ := jailEvaluate_stops stopped notDeep
  have meansThere : (openedOn machine).interpreter.command? (Builtin.name .jailEvaluate) =
      some ⟨title, .builtin .jailEvaluate⟩ := means
  have called : dispatch run rounds [Builtin.name .jailEvaluate, selfJailing] (openedOn machine) =
      .error stop ended :=
    (dispatch_of_command? run rounds [Builtin.name .jailEvaluate, selfJailing] meansThere).trans
      (bind_of_error (bind_of_error jailStopped))
  have yields : InTurn (WrittenWord.Yields run) selfJailingLine.words (readOn machine)
      [Builtin.name .jailEvaluate, selfJailing] (openedOn machine) :=
    .cons ⟨[], .nil, by simp [selfJailingLine]⟩
      (.cons ⟨[selfJailing], .cons ⟨reads, rfl⟩ .nil, by simp⟩ .nil)
  let start : Machine σ := prepared true true (entered selfJailing machine)
  have unfailed : start.interpreter.error = none := rfl
  have ran : runText run rounds ⟨true, false⟩ selfJailingLine.text start = _ :=
    runText_of_line run rounds true selfJailingLine unfailed ready.uncancelled yields rfl
  rw [← selfJailing_eq] at ran
  exact ⟨_, script_stops ready (ran.trans called)⟩

/-! ## There is no end to it -/

/-- A fresh machine, on which two evaluations may be nested. -/
theorem Unused.fresh
    {limits : Limits}
    (callbacks : Callbacks σ)
    (world : World σ)
    (roomy : 1 < limits.evaluations) :
    Unused ⟨Interpreter.fresh limits callbacks, world⟩ where
  free := .fresh limits callbacks
  asks := Interpreter.command?_fresh limits callbacks .reflect
  opens := Interpreter.command?_fresh limits callbacks .jailEvaluate
  isNew := by
    obtain ⟨functions, commands, system, isFresh⟩ := Interpreter.fresh_eq limits callbacks
    exact ⟨limits, callbacks, functions, commands, system, roomy, isFresh⟩

/-- On a fresh machine the code calls itself on another fresh machine. -/
theorem selfCall_fresh
    (limits : Limits)
    (callbacks : Callbacks σ)
    (world : World σ) :
    ∃ between, selfCall ⟨Interpreter.fresh limits callbacks, world⟩ =
      outermostCall .background selfJailing
        ⟨Interpreter.fresh limits { write := callbacks.write }, between⟩ := by
  have noneHosted := Interpreter.hostCommands_fresh limits callbacks
  obtain ⟨functions, commands, system, isFresh⟩ := Interpreter.fresh_eq limits callbacks
  rw [isFresh] at noneHosted ⊢
  have jailed : jailInterpreter
      (openedOn ⟨{ limits, callbacks, functions, commands, system }, world⟩).interpreter false =
        Interpreter.fresh limits { write := callbacks.write } := by
    rw [jailInterpreter, show (openedOn ⟨{ limits, callbacks, functions, commands, system },
      world⟩).interpreter.hostCommands = [] from noneHosted]
    rfl
  refine ⟨(final (log "jail created" [("clean", .flag false)]) (openedOn
    ⟨{ limits, callbacks, functions, commands, system }, world⟩)).world, ?_⟩
  rw [selfCall, jailedCall, jailed]
  rfl

/-- The context of a fresh machine is the background. -/
theorem outermostCall_fresh
    (limits : Limits)
    (callbacks : Callbacks σ)
    (world : World σ)
    (code : Text) :
    (outermostCall .background code ⟨Interpreter.fresh limits callbacks, world⟩).machine =
      ⟨Interpreter.fresh limits callbacks, world⟩ := by
  obtain ⟨functions, commands, system, isFresh⟩ := Interpreter.fresh_eq limits callbacks
  rw [isFresh]
  rfl

/-- No bound is large enough for the code to end. -/
theorem evaluate_selfJailing
    {limits : Limits}
    (roomy : 1 < limits.evaluations)
    (fuel : Nat) :
    ∀ (callbacks : Callbacks σ) (world : World σ), ∃ ended,
      evaluate fuel selfJailing true ⟨Interpreter.fresh limits callbacks, world⟩ =
        .error .exhausted ended := by
  induction fuel with
  | zero =>
      exact fun _ _ => ⟨_, rfl⟩
  | succ fuel inductionHypothesis =>
      intro callbacks world
      have unused := Unused.fresh callbacks world roomy
      cases fuel with
      | zero =>
          have stopped : ∃ ended, runText (evaluate 0) 0 ⟨true, false⟩ selfJailing
              (prepared true true (entered selfJailing
                ⟨Interpreter.fresh limits callbacks, world⟩)) = .error .exhausted ended := by
            obtain ⟨functions, commands, system, isFresh⟩ := Interpreter.fresh_eq limits callbacks
            rw [isFresh]
            exact ⟨_, rfl⟩
          obtain ⟨ended, stopped⟩ := stopped
          exact ⟨_, script_stops unused.ready stopped⟩
      | succ fuel =>
          obtain ⟨between, isCall⟩ := selfCall_fresh limits callbacks world
          obtain ⟨inner, innerStopped⟩ := inductionHypothesis { write := callbacks.write } between
          rw [← outermostCall_fresh, ← isCall] at innerStopped
          exact script_selfJailing_stops (fuel + 1) unused (evaluate_askCode unused fuel)
            innerStopped (by simp)

/-- The code makes the call of itself in the jail. -/
theorem makes_selfJailing
    {limits : Limits}
    (roomy : 1 < limits.evaluations)
    (fuel : Nat)
    (callbacks : Callbacks σ)
    (world : World σ) :
    Makes (fun run => script run (fuel + 1) selfJailing true) (evaluate (fuel + 1))
      ⟨Interpreter.fresh limits callbacks, world⟩
      (selfCall ⟨Interpreter.fresh limits callbacks, world⟩) := by
  let machine : Machine σ := ⟨Interpreter.fresh limits callbacks, world⟩
  have unused : Unused machine := .fresh callbacks world roomy
  refine ⟨.error .crash machine, fun same => ?_⟩
  have reads : answering (evaluate (fuel + 1)) (selfCall machine) (.error .crash machine) askCode
      false (readOn machine) = .ok selfJailing (openedOn machine) := by
    rw [answering_of_ne fun isCall => ?_]
    · exact evaluate_askCode unused fuel
    · exact absurd (congrArg Call.code isCall) (show askCode ≠ selfJailing by decide +kernel)
  obtain ⟨ended, crashed⟩ := script_selfJailing_stops (fuel + 1) unused reads (if_pos rfl) (by simp)
  obtain ⟨exhausted, stopped⟩ :=
    evaluate_selfJailing roomy (fuel + 2) callbacks world
  cases (crashed.symm.trans same).trans stopped

/-- As many of its calls are active together as there is fuel for. -/
theorem exists_stack_selfJailing
    {limits : Limits}
    (roomy : 1 < limits.evaluations)
    (fuel : Nat) :
    ∀ (callbacks : Callbacks σ) (world : World σ), ∃ calls,
      Stack (fuel + 1) (outermostCall .background selfJailing
        ⟨Interpreter.fresh limits callbacks, world⟩) calls ∧ calls.length = fuel + 1 := by
  induction fuel with
  | zero =>
      exact fun _ _ => ⟨_, .here 1 _, rfl⟩
  | succ fuel inductionHypothesis =>
      intro callbacks world
      obtain ⟨between, isCall⟩ := selfCall_fresh limits callbacks world
      obtain ⟨calls, stack, sized⟩ := inductionHypothesis { write := callbacks.write } between
      rw [← isCall] at stack
      refine ⟨_ :: calls, .deeper ?_ stack, congrArg (· + 1) sized⟩
      rw [outermostCall_fresh]
      exact makes_selfJailing roomy fuel callbacks world

/-! ## The limit is exceeded -/

/-- A jail in a jail. -/
def jailInJail : Text :=
  Text.ofString "jaileval {jaileval x}"

theorem jailInJail_eq :
    jailInJail = jailing (jailing [0x78]) := by
  decide

/-- The value with which an evaluation ended without a failure. -/
def plainValue? : Outcome Evaluated → Option Text
  | .finished ⟨value, none⟩ => some value
  | _ => none

/--
Counted over all interpreters, more evaluations can be active than the limit and one: where no two
may be nested, a jail in a jail has three, and the evaluation goes well.  Where a thousand may, code
that runs itself in a jail has any number of them, and its evaluation never comes to an end.
-/
theorem jails_exceed_limit :
    (∃ calls, Stack 3 (outermostCall .background jailInJail shallow) calls ∧
        shallow.interpreter.limits.evaluations + 1 < calls.length) ∧
      plainValue? (shallow.perform (evaluateIn (evaluate 3) .background jailInJail)).1 =
        some [] ∧
      (∀ bound, ∃ fuel calls,
        Stack fuel (outermostCall .background selfJailing untouched) calls ∧
          bound < calls.length) ∧
      ∀ fuel, (untouched.perform (evaluateIn (evaluate fuel) .background selfJailing)).1 =
        .stopped .exhausted := by
  have roomy : 1 < ({} : Limits).evaluations := by decide
  refine ⟨?_, by decide +kernel, fun bound => ?_, fun fuel => ?_⟩
  · have knownInside : isBuiltin (jailInterpreter shallow.interpreter false)
        (Builtin.name .jailEvaluate) .jailEvaluate = true := by
      decide +kernel
    obtain ⟨outer, first, inner, stack⟩ :=
      exists_stack_jailing [0x78] ready_shallow isBuiltin_shallow knownInside
    rw [jailInJail_eq, limit_shallow]
    exact ⟨_, stack, Nat.lt_succ_self 2⟩
  · obtain ⟨calls, stack, sized⟩ := exists_stack_selfJailing roomy bound {} untouched.world
    exact ⟨bound + 1, calls, stack, Nat.lt_of_lt_of_eq (Nat.lt_succ_self bound) sized.symm⟩
  · have idle : untouched.interpreter.active = [] := rfl
    have background : (outermostCall .background selfJailing untouched).machine = untouched :=
      outermostCall_fresh {} {} untouched.world selfJailing
    obtain ⟨ended, stopped⟩ := evaluate_selfJailing roomy fuel {} untouched.world
    have ran : evaluate fuel selfJailing true
        (outermostCall .background selfJailing untouched).machine = .error .exhausted ended := by
      rw [background]
      exact stopped
    rw [perform_evaluateIn _ _ _ idle, ran]

end Eval

end LittleScript
