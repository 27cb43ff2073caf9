import LittleScript.Proofs.FirstError
import LittleScript.Proofs.Heedless

namespace LittleScript.Eval

/-!
# Clean jails are sealed

A clean jail is made from the limits and the output of its parent only.  So nothing of the parent
changes but its pending error, and whatever else the parent holds, code in the jail ends in the same
way and writes the same.
-/

variable {σ α : Type}

/-! ## What a jail starts on and what it leaves -/

/-- The record that a jail is made. -/
def jailRecord (clean : Bool) : LogEntry :=
  ⟨Text.ofString "jail created", [(Text.ofString "clean", .flag clean)]⟩

/-- What a jail makes of the evaluation in it. -/
def reporting (evaluation : Eval σ Evaluated) : Eval σ Text := do
  let evaluated ← evaluation
  match evaluated.failure.bind Failure.fatal? with
  | some error =>
      raise (.nestedTooDeep error)
      return []
  | none => return evaluated.value

/-- What the evaluation in a jail of a machine starts on. -/
def jailStart (clean : Bool) (machine : Machine σ) : Machine σ where
  interpreter := jailInterpreter machine.interpreter clean
  world := machine.world.record (jailRecord clean)

/-- A jail comes back to its parent and reports the evaluation in it. -/
theorem jailEvaluate_eq
    (run : Run σ)
    (code : Text)
    (clean : Bool)
    (machine : Machine σ) :
    jailEvaluate run code clean machine =
      reporting (ensuring (evaluateIn run machine.interpreter.context code)
        fun after => { after with interpreter := machine.interpreter })
        (jailStart clean machine) :=
  rfl

/-- How the evaluation in a jail of a machine ends. -/
def inside (run : Run σ) (code : Text) (clean : Bool) (machine : Machine σ) :
    Outcome Evaluated × Machine σ :=
  (jailStart clean machine).perform (evaluateIn run machine.interpreter.context code)

/-- The fatal error, of the jail itself or of one nested in it, that an evaluation ends with. -/
def aborting : Outcome Evaluated → Option FatalError
  | .finished evaluated => evaluated.failure.bind Failure.fatal?
  | .stopped _ => none

/-- What a jail yields to its parent. -/
def yielded : Outcome Evaluated → Outcome Text
  | .finished evaluated =>
      .finished (if (aborting (.finished evaluated)).isSome then [] else evaluated.value)
  | .stopped stop => .stopped stop

/-- The error that a jail raises in its parent if evaluations were nested too deeply. -/
def abortion (parent : Interpreter σ) (outcome : Outcome Evaluated) : Option ScriptError :=
  (aborting outcome).map fun error =>
    .locate (.nestedTooDeep error) parent.source (parent.active.getLast?.getD 0)

/-- An error that is raised becomes pending if it is the first; else only the log may change. -/
theorem raise_eq
    (reason : Reason)
    (machine : Machine σ) :
    ∃ records, raise reason machine =
      .ok ()
        { interpreter := { machine.interpreter with
            error := machine.interpreter.error.or (some (.locate reason machine.interpreter.source
              (machine.interpreter.active.getLast?.getD 0))) }
          world := { machine.world with records } } := by
  cases pending : machine.interpreter.error with
  | none =>
      simp only [raise, commandStart, inspect_bind_apply, raiseAt, interpreter_bind_apply, pending]
      exact ⟨_, rfl⟩
  | some first =>
      have unchanged : { machine.interpreter with error := some first } = machine.interpreter := by
        rw [← pending]
      refine ⟨machine.world.records, ?_⟩
      simp only [raise, commandStart, inspect_bind_apply, raiseAt, interpreter_bind_apply, pending,
        Option.some_or, unchanged]
      rfl

/--
A jail changes nothing in its parent but the pending error, and that only if none is pending and the
jail was aborted; what it does to the world is done by the evaluation in it, but for the log.
-/
theorem perform_jailEvaluate
    (run : Run σ)
    (code : Text)
    (clean : Bool)
    (machine : Machine σ) :
    ∃ records, machine.perform (jailEvaluate run code clean) =
      (yielded (inside run code clean machine).1,
        { interpreter := { machine.interpreter with
            error := machine.interpreter.error.or
              (abortion machine.interpreter (inside run code clean machine).1) }
          world := { (inside run code clean machine).2.world with records } }) := by
  have unchanged : { machine.interpreter with error := machine.interpreter.error.or none } =
      machine.interpreter := by
    rw [Option.or_none]
  rw [Machine.perform, jailEvaluate_eq, reporting, inside, Machine.perform]
  cases ran : evaluateIn run machine.interpreter.context code (jailStart clean machine) with
  | error stop after =>
      have stopped : ensuring (evaluateIn run machine.interpreter.context code)
          (fun after => { after with interpreter := machine.interpreter })
          (jailStart clean machine) = .error stop { machine with world := after.world } := by
        rw [ensuring, ran]
      refine ⟨after.world.records, ?_⟩
      simp only [bind_of_error stopped, yielded, abortion, aborting, Option.map_none, unchanged]
  | ok evaluated after =>
      have came : ensuring (evaluateIn run machine.interpreter.context code)
          (fun after => { after with interpreter := machine.interpreter })
          (jailStart clean machine) =
            .ok evaluated { machine with world := after.world } := by
        rw [ensuring, ran]
      rw [bind_of_ok came]
      cases aborted : evaluated.failure.bind Failure.fatal? with
      | none =>
          refine ⟨after.world.records, ?_⟩
          simp only [yielded, abortion, aborting, aborted, Option.map_none, unchanged]
          rfl
      | some error =>
          obtain ⟨records, raised⟩ :=
            raise_eq (.nestedTooDeep error) { machine with world := after.world }
          refine ⟨records, ?_⟩
          simp only [bind_of_ok raised, yielded, abortion, aborting, aborted]
          rfl

/-- How an action ends and what it leaves of the world, the log apart. -/
def ending (machine : Machine σ) (action : Eval σ α) : Outcome α × World σ :=
  ((machine.perform action).1, { (machine.perform action).2.world with records := [] })

/-- Clean jails of parents with the same limits, output and context end alike in the same world. -/
theorem ending_jailEvaluate
    (run : Run σ)
    (code : Text)
    {first second : Interpreter σ}
    (limits : first.limits = second.limits)
    (output : first.callbacks.write = second.callbacks.write)
    (context : first.context = second.context)
    (world : World σ) :
    ending ⟨first, world⟩ (jailEvaluate run code true) =
      ending ⟨second, world⟩ (jailEvaluate run code true) := by
  have sameInside : inside run code true ⟨first, world⟩ = inside run code true ⟨second, world⟩ := by
    simp only [inside, jailStart, jailInterpreter, limits, output, context, if_true]
  obtain ⟨_, performed⟩ := perform_jailEvaluate run code true ⟨first, world⟩
  obtain ⟨_, performedThere⟩ := perform_jailEvaluate run code true ⟨second, world⟩
  rw [ending, ending, performed, performedThere, sameInside]

/-- What a jail makes of the evaluation in it does not hang on a past. -/
theorem Later.reporting
    {past : Past σ}
    {other plain : Eval σ Evaluated}
    {machine : Machine σ}
    (later : Later past other plain machine) :
    Later past (Eval.reporting other) (Eval.reporting plain) machine := by
  refine later.bind fun evaluated after _ => ?_
  cases evaluated.failure.bind Failure.fatal? with
  | none => rfl
  | some error => exact (Later.raiseAt _ _).bind fun _ _ _ => rfl

/-- A jail ends in a world with a past as it does without, if its code does. -/
theorem jailEvaluate_later
    {past : Past σ}
    {other plain : Run σ}
    {code : Text}
    {clean : Bool}
    {machine : Machine σ}
    (later : Later past (other code true) (plain code true)
      (jailMachine clean { machine with world := machine.world.record (jailRecord clean) })) :
    Later past (jailEvaluate other code clean) (jailEvaluate plain code clean) machine :=
  (Later.inJail clean code later).reporting.of_eq rfl rfl

theorem perform_since
    {past : Past σ}
    {other plain : Eval σ α}
    {machine : Machine σ}
    (later : Later past other plain machine) :
    (machine.since past).perform other =
      ((machine.perform plain).1, (machine.perform plain).2.since past) := by
  rw [Machine.perform, Machine.perform, later]
  cases plain machine <;> rfl

/-- Output that does not hang on what was written, logged or drawn at random before. -/
def BlindOutput (callbacks : Callbacks σ) : Prop :=
  ∀ handle, callbacks.write = some handle →
    ∀ (text : Text) (past : Past σ), past.host = id →
      ∀ world, handle text (world.since past) = (handle text world).since past

theorem blindOutput_of_silent
    {callbacks : Callbacks σ}
    (silent : callbacks.write = none) :
    BlindOutput callbacks := by
  intro handle handled
  rw [silent] at handled
  cases handled

/-- With blind output, or without a host for it, a jail does not heed a past. -/
theorem BlindOutput.heedless
    {callbacks : Callbacks σ}
    (blind : BlindOutput callbacks)
    {past : Past σ}
    (host : callbacks.write = none ∨ past.host = id) :
    ({ write := callbacks.write } : Callbacks σ).Heedless past where
  answers answers := by
    cases answers with
    | write text handled =>
        rcases host with unhandled | unmoved
        · exact absurd (handled.symm.trans unhandled) (by simp)
        · exact fun world => congrArg (Prod.mk ()) (blind _ handled text past unmoved world)
    | exit _ handled => cases handled
    | read _ handled => cases handled
    | store _ _ handled => cases handled
    | source _ handled => cases handled
    | error _ handled => cases handled
    | getVariable _ handled => cases handled
  assigned handled := nomatch handled

/-- The jail of code ends alike whatever the command for random numbers did. -/
def SparesRandom (fuel : Nat) (code : Text) (machine : Machine σ) : Prop :=
  ∀ builtins : Builtins σ,
    (∀ run rounds command, command ≠ .random →
      builtins run rounds command = callBuiltin run rounds command) →
    jailEvaluate (evaluateVia (dispatchWith builtins) fuel) code true machine =
      jailEvaluate (evaluate fuel) code true machine

/--
Two machines with the same limits, context, output and files, whatever else they hold and whatever
was written and logged before.
-/
structure SameOutside (first second : Machine σ) : Prop where
  limits : first.interpreter.limits = second.interpreter.limits
  context : first.interpreter.context = second.interpreter.context
  output : first.interpreter.callbacks.write = second.interpreter.callbacks.write
  blind : BlindOutput first.interpreter.callbacks
  host : first.interpreter.callbacks.write = none ∨ first.world.host = second.world.host
  files : first.world.files = second.world.files
  cancellation : first.world.cancellation = second.world.cancellation

/-- A clean jail in a world with a past ends as one without, if it draws no random numbers. -/
theorem jailEvaluate_since
    {past : Past σ}
    {fuel : Nat}
    {code : Text}
    {machine : Machine σ}
    (output : ({ write := machine.interpreter.callbacks.write } : Callbacks σ).Heedless past)
    (spares : past.drawn = 0 ∨ SparesRandom fuel code (machine.since past)) :
    Later past (jailEvaluate (evaluate fuel) code true) (jailEvaluate (evaluate fuel) code true)
      machine := by
  have held : (Scope.serving (heedless past)).holds
      (jailMachine true { machine with
        world := machine.world.record (jailRecord true) }).interpreter :=
    holds_jailMachine_of_output (.fresh _ _) output
  rcases spares with undrawn | spares
  · exact jailEvaluate_later (evaluate_later undrawn fuel code true held)
  · have later := jailEvaluate_later (evaluateVia_later past fuel code true held)
    rw [Later, spares _ ?_] at later
    · exact later
    · intro run rounds command different
      funext arguments
      exact builtinsBefore_of_ne past.drawn run rounds different arguments

/-- Clean jails of parents that are the same from outside end alike, each with its own past. -/
theorem perform_jailEvaluate_since
    {first second : Interpreter σ}
    (limits : first.limits = second.limits)
    (output : first.callbacks.write = second.callbacks.write)
    (context : first.context = second.context)
    {origin : World σ}
    {past pastThere : Past σ}
    (heedless : ({ write := first.callbacks.write } : Callbacks σ).Heedless past)
    (heedlessThere : ({ write := second.callbacks.write } : Callbacks σ).Heedless pastThere)
    {fuel : Nat}
    {code : Text}
    (undrawn : past.drawn = 0)
    (spares : pastThere.drawn = 0 ∨ SparesRandom fuel code ⟨second, origin.since pastThere⟩) :
    ∃ (outcome : Outcome Text) (left leftThere : Machine σ),
      Machine.perform ⟨first, origin.since past⟩ (jailEvaluate (evaluate fuel) code true) =
          (outcome, left.since past) ∧
        Machine.perform ⟨second, origin.since pastThere⟩ (jailEvaluate (evaluate fuel) code true) =
          (outcome, leftThere.since pastThere) ∧
        { left.world with records := [] } = { leftThere.world with records := [] } := by
  have later : Later past (jailEvaluate (evaluate fuel) code true)
      (jailEvaluate (evaluate fuel) code true) ⟨first, origin⟩ :=
    jailEvaluate_since heedless (.inl undrawn)
  have laterThere : Later pastThere (jailEvaluate (evaluate fuel) code true)
      (jailEvaluate (evaluate fuel) code true) ⟨second, origin⟩ :=
    jailEvaluate_since heedlessThere spares
  have same := ending_jailEvaluate (evaluate fuel) code limits output context origin
  have sameOutcome := congrArg Prod.fst same
  refine ⟨_, _, _, perform_since later, (perform_since laterThere).trans ?_,
    congrArg Prod.snd same⟩
  exact congrArg (Prod.mk · _) sameOutcome.symm

/-- The same was done to two worlds: the same texts were written, with the same consequences. -/
structure DoneAlike (first second left leftThere : World σ) : Prop where
  written : ∃ texts,
    left.written = texts ++ first.written ∧ leftThere.written = texts ++ second.written
  files : left.files = leftThere.files
  cancellation : left.cancellation = leftThere.cancellation
  host : first.host = second.host → left.host = leftThere.host

open Classical in
/-- What makes of a world without output and log another world with the same files. -/
noncomputable def pastBetween (origin world : World σ) : Past σ where
  written := world.written
  records := world.records
  drawn := world.randomness - origin.randomness
  host := if origin.host = world.host then id else fun _ => world.host

theorem since_pastBetween
    {origin world : World σ}
    (files : origin.files = world.files)
    (cancellation : origin.cancellation = world.cancellation) :
    ({ origin with written := [], records := [] } : World σ).since (pastBetween origin world) =
      world := by
  have moved : origin.randomness + (world.randomness - origin.randomness) = world.randomness := by
    rw [UInt64.add_comm, UInt64.sub_add_cancel]
  simp only [World.since, pastBetween, files, cancellation, moved, List.nil_append]
  split
  · rename_i same
    rw [same]
    rfl
  · rfl

theorem pastBetween_host
    {origin world : World σ}
    (same : origin.host = world.host) :
    (pastBetween origin world).host = id :=
  if_pos same

/-- What is the same from outside gets the same from a clean jail that draws no other numbers. -/
theorem SameOutside.perform_jailEvaluate
    {first second : Machine σ}
    (same : SameOutside first second)
    {fuel : Nat}
    {code : Text}
    (random : first.world.randomness = second.world.randomness ∨ SparesRandom fuel code second) :
    (first.perform (jailEvaluate (evaluate fuel) code true)).1 =
        (second.perform (jailEvaluate (evaluate fuel) code true)).1 ∧
      DoneAlike first.world second.world
        (first.perform (jailEvaluate (evaluate fuel) code true)).2.world
        (second.perform (jailEvaluate (evaluate fuel) code true)).2.world := by
  have starts : Machine.mk first.interpreter
      (World.since { first.world with written := [], records := [] }
        (pastBetween first.world first.world)) = first :=
    congrArg (Machine.mk first.interpreter) (since_pastBetween rfl rfl)
  have startsThere : Machine.mk second.interpreter
      (World.since { first.world with written := [], records := [] }
        (pastBetween first.world second.world)) = second :=
    congrArg (Machine.mk second.interpreter) (since_pastBetween same.files same.cancellation)
  have heedless : ({ write := first.interpreter.callbacks.write } : Callbacks σ).Heedless
      (pastBetween first.world first.world) :=
    same.blind.heedless (.inr (pastBetween_host rfl))
  have heedlessThere : ({ write := second.interpreter.callbacks.write } : Callbacks σ).Heedless
      (pastBetween first.world second.world) := by
    rw [← same.output]
    exact same.blind.heedless (same.host.imp_right pastBetween_host)
  have undrawn : (pastBetween first.world first.world).drawn = 0 :=
    UInt64.sub_self first.world.randomness
  have spares : (pastBetween first.world second.world).drawn = 0 ∨
      SparesRandom fuel code ⟨second.interpreter,
        World.since { first.world with written := [], records := [] }
          (pastBetween first.world second.world)⟩ := by
    rw [startsThere]
    refine random.imp_left fun sameRandom => ?_
    rw [pastBetween, sameRandom]
    exact UInt64.sub_self _
  obtain ⟨outcome, left, leftThere, ran, ranThere, sameLeft⟩ := perform_jailEvaluate_since
    same.limits same.output same.context heedless heedlessThere undrawn spares
  rw [starts] at ran
  rw [startsThere] at ranThere
  rw [ran, ranThere]
  obtain ⟨written, -, files, cancellation, -, host⟩ := World.mk.inj sameLeft
  refine ⟨rfl, ⟨⟨left.world.written, rfl, ?_⟩, files, cancellation, fun sameHost => ?_⟩⟩
  · exact congrArg (· ++ second.world.written) written.symm
  · simp only [Machine.since, World.since, pastBetween_host sameHost, pastBetween_host, id, host]

/-- The value that an action yields, if it does, and all texts that are then written. -/
def yields (action : Eval σ α) (machine : Machine σ) : Option α × List Text :=
  match machine.perform action with
  | (.finished value, after) => (some value, after.world.written)
  | (.stopped _, after) => (none, after.world.written)

/-- A machine without `print`, with a `set` of its own, a catcher, a variable and some output. -/
def used (machine : Machine σ) : Machine σ where
  interpreter :=
    { ((machine.interpreter.delete (Text.ofString "print")).define (Text.ofString "set")
        (.script [] [])) with
      catcher := Text.ofString "list"
      frames := #[{
        bindings := Table.insert {} (Text.ofString "y")
          { name := Text.ofString "y", owner := rootFrame, value := [] } }] }
  world := machine.world.write (Text.ofString "before")

/-- Code that assigns a variable and prints. -/
def printing : Text :=
  Text.ofString "set y 2; print $y; count [list 1 2 3]"

end LittleScript.Eval
