import LittleScript.Console
import LittleScript.Proofs.FirstError
import LittleScript.Proofs.IntegerText
import LittleScript.Proofs.PendingResult
import LittleScript.Proofs.UntilMarked

namespace LittleScript

/-!
# The status of a run

The host of a run notes each status that the script asks for, and cancels the context with it.
Only an `exit` outside of jails reaches the host, so the statuses that are noted at the end of a
run are those of the exits that it executed, and one that is not negative decides how the run ends.
-/

variable {σ : Type}

namespace Console

open Eval

/-- The callbacks in a run: a script may exit, and a jail has no callbacks. -/
def inRun (callbacks : Callbacks ExitRequest) (_ : Context) : Prop :=
  callbacks = { exit := some onExit } ∨ callbacks = {}

/-- Between two worlds statuses were noted, and the context was cancelled if there are any. -/
def Exits (before after : World ExitRequest) : Prop :=
  ∃ statuses : List Int64,
    after.host.statuses = statuses ++ before.host.statuses ∧
      after.cancellation =
        if statuses = [] then before.cancellation
        else some (before.cancellation.getD .cancelled)

theorem Exits.refl
    (world : World ExitRequest) :
    Exits world world :=
  ⟨[], rfl, rfl⟩

theorem Exits.trans
    {first second third : World ExitRequest}
    (early : Exits first second)
    (late : Exits second third) :
    Exits first third := by
  obtain ⟨earlyStatuses, earlyNoted, earlyCancelled⟩ := early
  obtain ⟨lateStatuses, lateNoted, lateCancelled⟩ := late
  refine ⟨lateStatuses ++ earlyStatuses, by rw [lateNoted, earlyNoted, List.append_assoc], ?_⟩
  rw [lateCancelled, earlyCancelled]
  cases earlyStatuses <;> cases lateStatuses <;> simp

/-- What a callback of a run does to the world are exits. -/
theorem exits_of_performs
    {callbacks : Callbacks ExitRequest}
    {context : Context}
    (served : inRun callbacks context)
    {update : World ExitRequest → World ExitRequest}
    (performs : callbacks.Performs update)
    (world : World ExitRequest) :
    Exits world (update world) := by
  have handled : ∀ handle, callbacks.exit = some handle → handle = onExit := by
    intro handle isHandle
    rcases served with rfl | rfl
    · exact (Option.some.inj isHandle).symm
    · exact nomatch isHandle
  have noOther : callbacks = { exit := callbacks.exit } := by
    rcases served with rfl | rfl <;> rfl
  cases performs with
  | exit argument isHandle =>
      rw [handled _ isHandle]
      exact ⟨[(argument.map fun text => text.toIntD 0).getD 0], rfl, rfl⟩
  | write _ isHandle => exact nomatch (congrArg Callbacks.write noOther).symm.trans isHandle
  | read _ isHandle => exact nomatch (congrArg Callbacks.read noOther).symm.trans isHandle
  | store _ _ isHandle => exact nomatch (congrArg Callbacks.store noOther).symm.trans isHandle
  | source _ isHandle => exact nomatch (congrArg Callbacks.source noOther).symm.trans isHandle
  | error _ isHandle => exact nomatch (congrArg Callbacks.error noOther).symm.trans isHandle
  | getVariable _ isHandle =>
      exact nomatch (congrArg Callbacks.getVariable noOther).symm.trans isHandle

/-- All that a run does to the host and to the cancellation are exits. -/
theorem onward_exits :
    Onward inRun Exits where
  trans := Exits.trans
  routine routine := by
    cases routine <;> exact .refl _
  performs served performs := exits_of_performs served performs
  asked served handled := by
    rcases served with rfl | rfl <;> exact nomatch handled

theorem inRun_jail
    (callbacks : Callbacks ExitRequest)
    (context : Context)
    (served : inRun callbacks context) :
    inRun { write := callbacks.write } context := by
  rcases served with rfl | rfl <;> exact .inr rfl

/-- More statuses have been noted than a number. -/
def NotedBeyond (count : Nat) (world : World ExitRequest) : Prop :=
  count < world.host.statuses.length

theorem marking_notedBeyond
    (count : Nat) :
    Marking inRun Exits (NotedBeyond count) where
  onwards := onward_exits
  jails := inRun_jail
  stays := by
    rintro before after ⟨statuses, noted, -⟩ beyond
    rw [NotedBeyond, noted, List.length_append]
    exact Nat.lt_of_lt_of_le beyond (Nat.le_add_left _ _)

/--
Built-in commands that are called like those of scripts, except that an `exit` that reaches the
host may do anything once a number of statuses have been noted.
-/
def ExitsUpTo (count : Nat) (builtins : Builtins ExitRequest) : Prop :=
  ∀ run rounds command arguments (machine : Machine ExitRequest),
    (command = .exit → machine.interpreter.callbacks.exit.isSome = true →
      machine.world.host.statuses.length < count) →
    builtins run rounds command arguments machine =
      callBuiltin run rounds command arguments machine

/-- An `exit` that reaches the host has its status noted. -/
theorem alikeBuiltins_of_exitsUpTo
    {count : Nat}
    {builtins : Builtins ExitRequest}
    (alike : ExitsUpTo count builtins) :
    AlikeBuiltins inRun (NotedBeyond count) builtins := by
  intro run rounds command arguments machine held
  by_cases permitted : command = .exit → machine.interpreter.callbacks.exit.isSome = true →
      machine.world.host.statuses.length < count
  · exact .inl (alike run rounds command arguments machine permitted)
  · simp only [Classical.not_imp, Nat.not_lt] at permitted
    obtain ⟨rfl, reaches, noted⟩ := permitted
    refine .inr fun plain => ?_
    have isCallback : machine.interpreter.callbacks.exit = some onExit := by
      rcases held.2 with served | served
      · rw [served]
      · rw [served] at reaches
        exact nomatch reaches
    have exits : callBuiltin plain rounds .exit arguments machine =
        .ok (.value []) { machine with world := onExit arguments.head? machine.world } := by
      simp only [callBuiltin, Command.exit, interpreter_bind_apply, isCallback]
      rfl
    rw [final_of_ok exits]
    exact Nat.lt_succ_of_le noted

/-! ## Where the script of a run starts -/

/-- A variable that is new in the root frame is put there. -/
theorem setVariable_new_global
    (run : Run σ)
    {name : Text}
    (named : name.isEmpty = false)
    (value : Text)
    (machine : Machine σ)
    (unasked : machine.interpreter.callbacks.setVariable = none)
    (missing : (machine.interpreter.frame rootFrame).bindings.get? name = none) :
    Eval.setVariable run name value .global machine =
      .ok (some value)
        { machine with
          interpreter := machine.interpreter.putVariable rootFrame name
            { name, owner := rootFrame, value } } := by
  have absent : Composed.assigned? .global name machine.interpreter = none := by
    have lookup : machine.interpreter.lookup? rootFrame name = none := by
      simp only [Interpreter.lookup?, missing, Option.map_none]
    exact lookup
  have isOwner : owner .global name machine.interpreter = rootFrame := by
    rw [owner, absent]
    rfl
  have isNew : machine.interpreter.entryAt rootFrame name =
      { name, owner := rootFrame, value := [] } := by
    rw [Interpreter.entryAt, missing]
    rfl
  have approved : approve rootFrame name value machine = .ok (some value) machine := by
    simp only [approve, mediate, beq_self_eq_true, if_true, interpreter_bind_apply, unasked]
    rfl
  have stored : store rootFrame name value machine =
      .ok (some value)
        { machine with
          interpreter := machine.interpreter.putVariable rootFrame name
            { name, owner := rootFrame, value } } := by
    rw [store, bind_of_ok approved]
    exact congrArg (fun entry : Variable => EStateM.Result.ok (some value)
      { machine with
        interpreter := machine.interpreter.putVariable rootFrame name { entry with value } }) isNew
  rw [setVariable_apply run named value (by decide), isOwner, absent, bind_of_ok stored]
  rfl

/-- The interpreter of a run when its script starts. -/
def withArguments (interpreter : Interpreter σ) (arguments : List Text) : Interpreter σ :=
  (interpreter.putVariable rootFrame (Text.ofString "argv")
    { name := Text.ofString "argv", owner := rootFrame,
      value := ListText.write arguments }).putVariable rootFrame (Text.ofString "argc")
        { name := Text.ofString "argc", owner := rootFrame, value := Text.ofNat arguments.length }

/-- Run a script with its arguments, its code run in a given way. -/
def runArgumentsWith (run : Run ExitRequest) (code : Text) (arguments : List Text) :
    Eval ExitRequest Evaluated := do
  let _ ← Eval.setVariable run (Text.ofString "argv") (ListText.write arguments) .global
  let _ ← Eval.setVariable run (Text.ofString "argc") (Text.ofNat arguments.length) .global
  evaluateIn run .running code

theorem runArgumentsWith_apply
    (run : Run ExitRequest)
    (code : Text)
    (arguments : List Text)
    (machine : Machine ExitRequest)
    (unasked : machine.interpreter.callbacks.setVariable = none)
    (fresh : machine.interpreter.frames = #[{}]) :
    runArgumentsWith run code arguments machine =
      evaluateIn run .running code
        { machine with interpreter := withArguments machine.interpreter arguments } := by
  have noArgv : (machine.interpreter.frame rootFrame).bindings.get? (Text.ofString "argv") =
      none := by
    rw [Interpreter.frame, fresh]
    rfl
  let argvEntry : Variable :=
    { name := Text.ofString "argv", owner := rootFrame, value := ListText.write arguments }
  have noArgc : ((machine.interpreter.putVariable rootFrame (Text.ofString "argv")
      argvEntry).frame rootFrame).bindings.get? (Text.ofString "argc") = none := by
    rw [Interpreter.frame, Interpreter.putVariable, Interpreter.updateFrame, fresh]
    rfl
  have argv := setVariable_new_global run (by decide)
    (ListText.write arguments) machine unasked noArgv
  have argc := setVariable_new_global run (by decide)
    (Text.ofNat arguments.length)
    { machine with
      interpreter :=
        machine.interpreter.putVariable rootFrame (Text.ofString "argv") argvEntry }
    unasked noArgc
  exact (bind_of_ok argv).trans (bind_of_ok argc)

/-- The machine on which a run starts. -/
def startOf (surroundings : Surroundings) (interpreter : Interpreter ExitRequest) :
    Machine ExitRequest where
  interpreter := interpreter
  world :=
    { host := {}
      files := surroundings.files
      randomness := surroundings.seed }

/-! ## How a run ends -/

/-- What records add to the log leaves the exits as they are. -/
theorem exits_records
    (entries : List LogEntry)
    (world : World ExitRequest) :
    Exits world (entries.foldl World.record world) := by
  induction entries generalizing world with
  | nil => exact .refl world
  | cons entry rest inductionHypothesis => exact inductionHypothesis (world.record entry)

section Evaluation

variable {machine : Machine ExitRequest}

/-- All that an evaluation of a run does to the host and to the cancellation are exits. -/
theorem exits_evaluateIn
    (fuel : Nat)
    (code : Text)
    (free : machine.interpreter.HostFree)
    (served : inRun machine.interpreter.callbacks .running)
    (idle : machine.interpreter.active = []) :
    Exits machine.world (final (evaluateIn (evaluate fuel) .running code) machine).world := by
  have held : (Scope.serving inRun).holds
      (outermostCall .running code machine).machine.interpreter := ⟨free, served⟩
  obtain ⟨entries, isWorld⟩ := world_evaluateIn (evaluate fuel) .running code machine idle
  rw [isWorld]
  exact ((onward_exits.through_evaluate inRun_jail fuel).here code true held).2.trans
    (exits_records entries _)

/-- No `exit` is executed that reaches the host and is not noted. -/
theorem evaluateIn_of_exitsUpTo
    (fuel : Nat)
    (code : Text)
    (free : machine.interpreter.HostFree)
    (served : inRun machine.interpreter.callbacks .running)
    (idle : machine.interpreter.active = [])
    {builtins : Builtins ExitRequest}
    (alike : ExitsUpTo (final (evaluateIn (evaluate fuel) .running code)
      machine).world.host.statuses.length builtins) :
    evaluateIn (evaluateVia (dispatchWith builtins) fuel) .running code machine =
      evaluateIn (evaluate fuel) .running code machine := by
  have held : (Scope.serving inRun).holds
      (outermostCall .running code machine).machine.interpreter := ⟨free, served⟩
  have runs := evaluateVia_alikeUnless (marking_notedBeyond _) (alikeBuiltins_of_exitsUpTo alike)
    fuel code true _ held
  refine evaluateIn_congr (runs.same.resolve_right fun beyond => ?_)
  obtain ⟨entries, isWorld⟩ := world_evaluateIn (evaluate fuel) .running code machine idle
  obtain ⟨statuses, noted, -⟩ := exits_records entries
    (final (evaluate fuel code true) (outermostCall .running code machine).machine).world
  rw [NotedBeyond, isWorld, noted, List.length_append] at beyond
  exact absurd beyond (Nat.not_lt.mpr (Nat.le_add_left _ _))

end Evaluation

/-- What a run asks of its interpreter. -/
def configurationOf (given : Given) : Configuration :=
  { evaluations := (given.number depthFlag.name).toInt }

/-- An interpreter that a run is configured with. -/
structure Configured (interpreter : Interpreter ExitRequest) : Prop where
  free : interpreter.HostFree
  callbacks : interpreter.callbacks = { exit := some onExit }
  frames : interpreter.frames = #[{}]
  idle : interpreter.active = []

theorem Configured.of_configuration
    {configuration : Configuration}
    {interpreter : Interpreter ExitRequest}
    (configured : configuration.interpreter { exit := some onExit } = .ok interpreter) :
    Configured interpreter := by
  obtain ⟨limits, dollar, rfl⟩ := Configuration.interpreter_eq configured
  have free :
      (Interpreter.fresh limits ({ exit := some onExit } : Callbacks ExitRequest)).HostFree :=
    .fresh _ _
  obtain ⟨functions, commands, system, isFresh⟩ := Interpreter.fresh_eq limits
    ({ exit := some onExit } : Callbacks ExitRequest)
  rw [isFresh] at free ⊢
  exact ⟨free, rfl, rfl, rfl⟩

/-- The machine of a run when its script starts. -/
def scriptStart (surroundings : Surroundings) (interpreter : Interpreter ExitRequest)
    (arguments : List Text) : Machine ExitRequest :=
  { startOf surroundings interpreter with interpreter := withArguments interpreter arguments }

/-- A run is the evaluation of its script with the arguments in place. -/
theorem Configured.perform_eq
    {interpreter : Interpreter ExitRequest}
    (configured : Configured interpreter)
    (surroundings : Surroundings)
    (run : Run ExitRequest)
    (code : Text)
    (arguments : List Text) :
    (startOf surroundings interpreter).perform (runArgumentsWith run code arguments) =
      (scriptStart surroundings interpreter arguments).perform
        (evaluateIn run .running code) := by
  have applied := runArgumentsWith_apply run code arguments (startOf surroundings interpreter)
    (congrArg Callbacks.setVariable configured.callbacks) configured.frames
  rw [Machine.perform, Machine.perform, applied]
  rfl

/-- The ending of a run comes from how its evaluation ended and what it left. -/
theorem runCode_ending
    (surroundings : Surroundings)
    {given : Given}
    (code : Text)
    (arguments : List Text)
    {interpreter : Interpreter ExitRequest}
    (configured : (configurationOf given).interpreter { exit := some onExit } = .ok interpreter)
    {outcome : Outcome Evaluated}
    {after : Machine ExitRequest}
    (ran : (startOf surroundings interpreter).perform (runWithArguments code arguments) =
      (outcome, after)) :
    (runCode surroundings given code arguments).ending = runEnding after.world.host outcome := by
  rw [configurationOf] at configured
  rw [startOf] at ran
  simp only [runCode, configured, ran]

/-- An `exit` with the text of an integer notes that integer. -/
theorem onExit_text
    (status : Int64)
    (world : World ExitRequest) :
    (onExit (some (Integer.text status)) world).host.statuses = status :: world.host.statuses := by
  simp only [onExit, World.cancel, World.mapHost, Option.map_some, Option.getD_some, Text.toIntD,
    Text.toInt?_text]

/--
The statuses that are noted at the end of a run are those of the exits that it executed outside of
jails: an `exit` that reaches the host once they are all noted might do anything, and the run would
end alike.  The context is cancelled just when there are any.  If the only one is zero the run
succeeds, and if it is positive the run ends with it, however the evaluation ended; but if it is
negative the run ends as its evaluation does, without a status.  An evaluation that never ends
gives no status.
-/
theorem run_with_one_exit
    (surroundings : Surroundings)
    (given : Given)
    (code : Text)
    (arguments : List Text)
    {interpreter : Interpreter ExitRequest}
    (configured : (configurationOf given).interpreter { exit := some onExit } = .ok interpreter)
    {outcome : Outcome Evaluated}
    {after : Machine ExitRequest}
    (ran : (startOf surroundings interpreter).perform (runWithArguments code arguments) =
      (outcome, after)) :
    (∀ status (world : World ExitRequest),
      (onExit (some (Integer.text status)) world).host.statuses =
        status :: world.host.statuses) ∧
      (∀ builtins, ExitsUpTo after.world.host.statuses.length builtins →
        (startOf surroundings interpreter).perform
            (runArgumentsWith (evaluateVia (dispatchWith builtins) ampleFuel) code arguments) =
          (outcome, after)) ∧
      (after.world.cancellation.isSome = true ↔ after.world.host.statuses ≠ []) ∧
      ∀ status, after.world.host.statuses = [status] →
        outcome = .stopped .exhausted ∨
          (status = 0 → (runCode surroundings given code arguments).ending = .success) ∧
          (0 < status → (runCode surroundings given code arguments).ending = .exited status) ∧
          (status < 0 →
            (∃ value, outcome = .finished ⟨value, none⟩ ∧
              (runCode surroundings given code arguments).ending = .success) ∨
            ∃ value failure, outcome = .finished ⟨value, some failure⟩ ∧
              (runCode surroundings given code arguments).ending = .scriptFailed failure) := by
  have known := Configured.of_configuration configured
  have ending := runCode_ending surroundings code arguments configured ran
  have free : (scriptStart surroundings interpreter arguments).interpreter.HostFree := known.free
  have idle : (scriptStart surroundings interpreter arguments).interpreter.active = [] :=
    known.idle
  have served : inRun (scriptStart surroundings interpreter arguments).interpreter.callbacks
      .running := .inl known.callbacks
  have evaluates : (scriptStart surroundings interpreter arguments).perform
      (evaluateIn (evaluate ampleFuel) .running code) = (outcome, after) :=
    (known.perform_eq surroundings Eval.runCode code arguments).symm.trans ran
  have isAfter : final (evaluateIn (evaluate ampleFuel) .running code)
      (scriptStart surroundings interpreter arguments) = after := by
    rw [← perform_snd, evaluates]
  refine ⟨onExit_text, ?_, ?_, ?_⟩
  · intro builtins alike
    rw [← isAfter] at alike
    rw [known.perform_eq, ← evaluates, Machine.perform, Machine.perform,
      evaluateIn_of_exitsUpTo ampleFuel code free served idle alike]
  · obtain ⟨statuses, noted, cancelled⟩ := exits_evaluateIn ampleFuel code free served idle
    rw [isAfter] at noted cancelled
    have isNoted : after.world.host.statuses = statuses :=
      noted.trans (List.append_nil statuses)
    rw [cancelled, isNoted]
    split <;> simp [*, scriptStart, startOf]
  · intro status once
    have counts : after.world.host.status = some status := by
      rw [ExitRequest.status, once, List.head?_cons]
    cases outcome with
    | stopped stop =>
        have stopped : ((scriptStart surroundings interpreter arguments).perform
            (evaluateIn (evaluate ampleFuel) .running code)).1 = .stopped stop :=
          congrArg Prod.fst evaluates
        exact .inl (congrArg Outcome.stopped
          (stopped_exhausted ampleFuel .running code free idle stopped))
    | finished evaluated =>
        obtain ⟨value, failure⟩ := evaluated
        rw [ending]
        refine .inr ⟨fun zero => ?_, fun positive => ?_, fun negative => ?_⟩
        · simp only [runEnding, counts, zero, if_true]
        · have notZero : status ≠ 0 := fun zero => by
            rw [zero] at positive
            exact absurd positive (by decide)
          simp only [runEnding, counts, notZero, positive, if_true, if_false]
        · have notZero : status ≠ 0 := fun zero => by
            rw [zero] at negative
            exact absurd negative (by decide)
          have notPositive : ¬0 < status := Int64.not_lt.mpr (Int64.le_of_lt negative)
          simp only [runEnding, counts, notZero, notPositive, if_false]
          cases failure with
          | none => exact .inl ⟨value, rfl, rfl⟩
          | some failure => exact .inr ⟨value, failure, rfl, rfl⟩

/-! ## Scripts that exit -/

/-- Surroundings with a script on the standard input. -/
def calling (script : Text) : Surroundings where
  program := Text.ofString "lil"
  directory := Text.ofString "/"
  input := script

/-- A script that exits with a positive status, and has a command behind. -/
def exitThree : Text :=
  Text.ofString "eval \x7bexit 3\x7d;print x"

/-- How the run of a script ended, and what it left. -/
def ranOnInput (script : Text) : Outcome Evaluated × Machine ExitRequest :=
  (startOf (calling script) (.fresh {} { exit := some onExit })).perform
    (runWithArguments script [])

/-- A script that leaves with 3 ends the run with 3. -/
theorem run_with_one_exit_three :
    (ranOnInput exitThree).2.world.host.statuses = [3] ∧
      (runCode (calling exitThree) ⟨[], []⟩ exitThree []).ending = .exited 3 := by
  have once : (ranOnInput exitThree).2.world.host.statuses = [3] := by decide +kernel
  have isCancelled : Eval.scriptReason? (ranOnInput exitThree).1 =
      some (.cancelled .cancelled) := by
    decide +kernel
  have defaults : configurationOf ⟨[], []⟩ = {} := by decide
  have configured : (configurationOf ⟨[], []⟩).interpreter { exit := some onExit } =
      .ok (.fresh {} { exit := some onExit }) := by
    rw [defaults]
    rfl
  obtain ⟨-, -, -, ends⟩ :=
    run_with_one_exit (calling exitThree) ⟨[], []⟩ exitThree [] configured
      (Prod.mk.eta (p := ranOnInput exitThree)).symm
  rcases ends 3 once with exhausted | ⟨-, positive, -⟩
  · rw [exhausted] at isCancelled
    cases isCancelled
  · exact ⟨once, positive (by decide)⟩

/-- The status -1 is taken for no exit at all, with and without a command behind. -/
theorem run_with_exit_minus_one :
    (ranOnInput (Text.ofString "exit -1")).2.world.host.statuses = [-1] ∧
      (execute (calling (Text.ofString "exit -1")) [Text.ofString "run", inputName]).ending =
        .success ∧
      (execute (calling (Text.ofString "exit -1;print x"))
        [Text.ofString "run", inputName]).ending ≠ .success ∧
      (execute (calling (Text.ofString "exit -1;print x"))
        [Text.ofString "run", inputName]).ending ≠ .exited (-1) := by
  refine ⟨?_, ?_, ?_, ?_⟩
  · decide +kernel
  · decide +kernel
  · decide +kernel
  · decide +kernel

end Console

end LittleScript
