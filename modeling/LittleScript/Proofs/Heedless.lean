import LittleScript.Proofs.Replacement
import LittleScript.Proofs.Serving

namespace LittleScript

/-!
# Evaluation in a world with a past

What an evaluation writes and logs comes in front of what was written and logged before, and
evaluation does not look behind it.  So where the callbacks do not look there either, code ends in a
world with a longer past as it does without that past, apart from the random numbers: these go on
from where they were.
-/

variable {σ α β : Type}

/--
What had happened in a world before: the texts written and the records logged, the latest first, how
far the random numbers had moved on, and what had become of the state of the host.
-/
structure Past (σ : Type) where
  written : List Text := []
  records : List LogEntry := []
  drawn : UInt64 := 0
  host : σ → σ := id

/-- A world as it would be with a past. -/
def World.since (world : World σ) (past : Past σ) : World σ :=
  { world with
    written := world.written ++ past.written
    records := world.records ++ past.records
    randomness := world.randomness + past.drawn
    host := past.host world.host }

/-- A machine in a world with a past. -/
def Machine.since (machine : Machine σ) (past : Past σ) : Machine σ :=
  { machine with world := machine.world.since past }

/-- A result in a world with a past. -/
def Eval.resultSince (past : Past σ) :
    EStateM.Result Stop (Machine σ) α → EStateM.Result Stop (Machine σ) α
  | .ok value after => .ok value (after.since past)
  | .error stop after => .error stop (after.since past)

/-- An answer of the world that does not hang on a past. -/
def Past.Unheeded (past : Past σ) (answer : World σ → α × World σ) : Prop :=
  ∀ world, answer (world.since past) = ((answer world).1, (answer world).2.since past)

/-- Callbacks that do not heed a past. -/
structure Callbacks.Heedless (callbacks : Callbacks σ) (past : Past σ) : Prop where
  answers : ∀ {α : Type} {answer : World σ → α × World σ}, callbacks.Answers answer →
    past.Unheeded answer
  assigned : ∀ {handle}, callbacks.setVariable = some handle → ∀ name value,
    past.Unheeded (handle name value)

/-- A jail heeds no past that its parent does not. -/
theorem Callbacks.Heedless.jail
    {past : Past σ}
    {callbacks : Callbacks σ}
    (heedless : callbacks.Heedless past) :
    ({ write := callbacks.write } : Callbacks σ).Heedless past where
  answers answers := heedless.answers answers.of_jail
  assigned handled := nomatch handled

namespace Eval

/-- An action ends in a world with a past as another one ends without that past. -/
def Later (past : Past σ) (other plain : Eval σ α) (machine : Machine σ) : Prop :=
  other (machine.since past) = resultSince past (plain machine)

namespace Later

variable {past : Past σ} {machine start : Machine σ}

/-- What is done later does the same in turn. -/
theorem bind
    {other plain : Eval σ α}
    {otherNext next : α → Eval σ β}
    (first : Later past other plain machine)
    (second : ∀ value between, plain machine = .ok value between →
      Later past (otherNext value) (next value) between) :
    Later past (other >>= otherNext) (plain >>= next) machine := by
  cases ran : plain machine with
  | error stop after =>
      have stopped : other (machine.since past) = .error stop (after.since past) := by
        rw [first, ran]
        rfl
      rw [Later, bind_of_error ran, bind_of_error stopped]
      rfl
  | ok value between =>
      have went : other (machine.since past) = .ok value (between.since past) := by
        rw [first, ran]
        rfl
      rw [Later, bind_of_ok ran, bind_of_ok went]
      exact second value between ran

/-- Actions that go like others. -/
theorem of_eq
    {other plain likeOther likePlain : Eval σ α}
    (later : Later past likeOther likePlain start)
    (sameOther : other (machine.since past) = likeOther (start.since past))
    (samePlain : plain machine = likePlain start) :
    Later past other plain machine := by
  rw [Later, sameOther, samePlain]
  exact later

/-- What is put back afterwards does not hang on the past. -/
theorem ensuring
    {other plain : Eval σ α}
    {cleanup : Machine σ → Machine σ}
    (later : Later past other plain machine)
    (cleans : ∀ after, cleanup (after.since past) = (cleanup after).since past) :
    Later past (Eval.ensuring other cleanup) (Eval.ensuring plain cleanup) machine := by
  rw [Later, Eval.ensuring, Eval.ensuring, later]
  cases plain machine with
  | ok value after => exact congrArg (EStateM.Result.ok value) (cleans after)
  | error stop after => exact congrArg (EStateM.Result.error stop) (cleans after)

/-- A question that does not heed the past has the same answer. -/
theorem ask
    {answer : World σ → α × World σ}
    (unheeded : past.Unheeded answer) :
    Later past (Eval.ask answer) (Eval.ask answer) machine := by
  have answered := unheeded machine.world
  rw [Later, Eval.ask, Eval.ask, Machine.since, answered]
  rfl

/-- An evaluation in a context ends as its code does. -/
theorem evaluateIn
    {other plain : Run σ}
    {context : Context}
    {code : Text}
    (later : Later past (other code true) (plain code true)
      (outermostCall context code machine).machine) :
    Later past (Eval.evaluateIn other context code) (Eval.evaluateIn plain context code)
      machine := by
  have reports : Later past (runReporting other code) (runReporting plain code)
      (outermostCall context code machine).machine :=
    later.bind fun _ _ _ => rfl
  have restores : Later past (Eval.ensuring (runReporting other code) (restored machine))
      (Eval.ensuring (runReporting plain code) (restored machine))
      (outermostCall context code machine).machine :=
    reports.ensuring fun _ => rfl
  have catches : Later past
      (catchTooDeep (Eval.ensuring (runReporting other code) (restored machine)))
      (catchTooDeep (Eval.ensuring (runReporting plain code) (restored machine)))
      (outermostCall context code machine).machine := by
    rw [Later, catchTooDeep, catchTooDeep, restores]
    cases Eval.ensuring (runReporting plain code) (restored machine)
        (outermostCall context code machine).machine with
    | ok value after => rfl
    | error stop after => cases stop <;> rfl
  cases idle : machine.interpreter.active.isEmpty with
  | true =>
      refine catches.of_eq ?_ ?_
      · simp only [Eval.evaluateIn, inspect_bind_apply, change_bind_apply, Machine.since, idle]
        rfl
      · simp only [Eval.evaluateIn, inspect_bind_apply, change_bind_apply, idle]
        rfl
  | false =>
      refine restores.of_eq ?_ ?_
      · simp only [Eval.evaluateIn, inspect_bind_apply, change_bind_apply, Machine.since, idle]
        rfl
      · simp only [Eval.evaluateIn, inspect_bind_apply, change_bind_apply, idle]
        rfl

end Later

/-! ## What is assembled heeds no past -/

/-- Callbacks that do not heed a past, in any context. -/
def heedless (past : Past σ) (callbacks : Callbacks σ) (_ : Context) : Prop :=
  callbacks.Heedless past

/-- From one machine to another the callbacks stay heedless. -/
abbrev StaysHeedless (past : Past σ) : Machine σ → Machine σ → Prop :=
  Serving (heedless past) fun _ _ => True

theorem onward_heedless
    (past : Past σ) :
    Onward (heedless past) fun _ _ => True where
  trans _ _ := True.intro
  routine _ := True.intro
  performs _ _ _ := True.intro
  asked _ _ _ _ _ := True.intro

theorem leading_heedless
    (past : Past σ) :
    Leading (Scope.serving (heedless past)).toRealm (StaysHeedless past) fun _ _ => True :=
  (onward_heedless past).leading

theorem through_heedless
    (past : Past σ)
    (fuel : Nat) :
    Through (Scope.serving (heedless past)).toRealm (StaysHeedless past) (evaluate fuel) :=
  (onward_heedless past).through_evaluate (fun _ _ heedless => heedless.jail) fuel

/-- Nested code ends in a world with a past as it does without. -/
def RunsLater (past : Past σ) (fuel : Nat) (other : Run σ) : Prop :=
  ∀ code ownResult (machine : Machine σ),
    (Scope.serving (heedless past)).holds machine.interpreter →
    Later past (other code ownResult) (evaluate fuel code ownResult) machine

section Level

variable {past : Past σ} {fuel : Nat} {other : Run σ} {machine : Machine σ}

namespace Later

/-- What evaluation asks of the world does not hang on a past, a random number apart. -/
theorem asked
    {answer : World σ → α × World σ}
    (asks : ((Scope.serving (heedless past)).toRealm.without .random).Asks answer) :
    Later past (Eval.ask answer) (Eval.ask answer) machine := by
  cases asks with
  | record entry => rfl
  | write text => rfl
  | read name =>
      refine .ask fun world => ?_
      simp only [World.since]
      split <;> rfl
  | store name text =>
      refine .ask fun world => ?_
      simp only [World.since]
      split <;> rfl
  | random allowed => exact absurd rfl allowed.2
  | callback held answers => exact .ask (held.2.answers answers)

/-- An error is reported to a host that does not heed the past. -/
theorem raiseAt
    (offset : Int)
    (reason : Reason) :
    Later past (Eval.raiseAt offset reason) (Eval.raiseAt offset reason) machine := by
  rw [Later, Eval.raiseAt, interpreter_bind_apply, interpreter_bind_apply]
  cases pending : machine.interpreter.error with
  | none =>
      simp only [Machine.since, pending]
      rfl
  | some error =>
      simp only [Machine.since, pending]
      rfl

/-- Code that is run in another frame. -/
theorem visit
    {otherCode plain : Eval σ Text}
    (frame : FrameId)
    (down : Option FrameId)
    (later : Later past otherCode plain (visiting frame down machine)) :
    Later past (inFrame frame down otherCode) (inFrame frame down plain) machine := by
  have inside : Later past
      (Eval.ensuring otherCode
        (visiting machine.interpreter.current machine.interpreter.down))
      (Eval.ensuring plain (visiting machine.interpreter.current machine.interpreter.down))
      (visiting frame down machine) :=
    later.ensuring fun _ => rfl
  exact inside.of_eq rfl rfl

/-- A way to another frame. -/
theorem heading
    (runs : RunsLater past fuel other)
    (heading : Heading)
    (code : Text)
    (held : (Scope.serving (heedless past)).holds machine.interpreter) :
    Later past (heading.evaluate other code) (heading.evaluate (evaluate fuel) code) machine := by
  have stays := runs code false machine held
  have goes : ∀ frame down, Later past (inFrame frame down (other code false))
      (inFrame frame down (evaluate fuel code false)) machine :=
    fun frame down => .visit frame down (runs code false _ held)
  cases heading with
  | up =>
      cases isParent : machine.interpreter.currentFrame.parent with
      | none =>
          refine stays.of_eq ?_ ?_ <;>
            simp only [Heading.evaluate, upEvaluate, interpreter_bind_apply, Machine.since,
              isParent]
      | some parent =>
          refine (goes parent (some machine.interpreter.current)).of_eq ?_ ?_ <;>
            simp only [Heading.evaluate, upEvaluate, interpreter_bind_apply, Machine.since,
              isParent]
  | down =>
      cases isDown : machine.interpreter.down with
      | none =>
          refine stays.of_eq ?_ ?_ <;>
            simp only [Heading.evaluate, downEvaluate, inspect_bind_apply, Machine.since, isDown]
      | some down =>
          refine (goes down none).of_eq ?_ ?_ <;>
            simp only [Heading.evaluate, downEvaluate, inspect_bind_apply, Machine.since, isDown]
  | top =>
      cases isRoot : machine.interpreter.current == rootFrame with
      | true =>
          refine stays.of_eq ?_ ?_ <;>
            simp only [Heading.evaluate, topEvaluate, inspect_bind_apply, Machine.since, isRoot,
              if_true]
      | false =>
          refine (goes rootFrame (some machine.interpreter.current)).of_eq ?_ ?_ <;>
            simp only [Heading.evaluate, topEvaluate, inspect_bind_apply, Machine.since, isRoot,
              Bool.false_eq_true, if_false]

/-- The host is asked about an assignment whatever the past was. -/
theorem approve
    (frame : FrameId)
    (name value : Text)
    (held : (Scope.serving (heedless past)).holds machine.interpreter) :
    Later past (Eval.approve frame name value) (Eval.approve frame name value) machine := by
  rw [Eval.approve]
  split
  · cases handled : machine.interpreter.callbacks.setVariable with
    | none =>
        have answers := mediate_of_unhandled name value handled
        rw [Later, answers]
        exact mediate_of_unhandled name value handled
    | some handle =>
        have handledSince : (machine.since past).interpreter.callbacks.setVariable =
            some handle :=
          handled
        have asked := held.2.assigned handled name value machine.world
        rw [Later, mediate_of_handled name value handled,
          mediate_of_handled name value handledSince]
        simp only [Machine.since, asked]
        rfl
  · rfl

/-- A variable is stored alike. -/
theorem store
    (frame : FrameId)
    (name value : Text)
    (held : (Scope.serving (heedless past)).holds machine.interpreter) :
    Later past (Eval.store frame name value) (Eval.store frame name value) machine := by
  refine (Later.approve frame name value held).bind fun stored _ _ => ?_
  cases stored with
  | none => rfl
  | some stored => rfl

/-- A watch runs alike later. -/
theorem runWatch
    (runs : RunsLater past fuel other)
    (frame : FrameId)
    (code : Text)
    (held : (Scope.serving (heedless past)).holds machine.interpreter) :
    Later past (Eval.runWatch other frame code) (Eval.runWatch (evaluate fuel) frame code)
      machine := by
  rw [Eval.runWatch, Eval.runWatch]
  split
  · have watches : Later past (other code true >>= fun _ => pure ())
        (evaluate fuel code true >>= fun _ => pure ())
        { machine with interpreter := { machine.interpreter with current := frame } } := by
      refine Later.bind (runs code true _ held) fun _ _ _ => ?_
      rfl
    have inside : Later past
        (Eval.ensuring (other code true >>= fun _ => pure ()) fun after =>
          { after with interpreter :=
            { after.interpreter with current := machine.interpreter.current } })
        (Eval.ensuring (evaluate fuel code true >>= fun _ => pure ()) fun after =>
          { after with interpreter :=
            { after.interpreter with current := machine.interpreter.current } })
        { machine with interpreter := { machine.interpreter with current := frame } } :=
      watches.ensuring fun _ => rfl
    exact inside.of_eq rfl rfl
  · rfl

/-- An assignment does the same later. -/
theorem setVariable
    (runs : RunsLater past fuel other)
    (name value : Text)
    {mode : Mode}
    (notFresh : mode ≠ .fresh)
    (held : (Scope.serving (heedless past)).holds machine.interpreter) :
    Later past (Eval.setVariable other name value mode)
      (Eval.setVariable (evaluate fuel) name value mode) machine := by
  cases unnamed : name.isEmpty with
  | true =>
      rw [Later, Eval.setVariable, Eval.setVariable]
      simp only [unnamed]
      rfl
  | false =>
      have stores : Later past
          (Eval.store (owner mode name machine.interpreter) name value >>=
            afterStoring other name (Composed.assigned? mode name machine.interpreter))
          (Eval.store (owner mode name machine.interpreter) name value >>=
            afterStoring (evaluate fuel) name
              (Composed.assigned? mode name machine.interpreter)) machine := by
        refine (Later.store _ name value held).bind fun stored between ran => ?_
        have isStored := (leading_heedless past).move held
          (.store _ name value (owner_root_or_current mode name machine.interpreter))
        have heldThere := (leading_heedless past).holds isStored held
        rw [final_of_ok ran] at heldThere
        cases stored with
        | none => rfl
        | some stored =>
            cases Composed.assigned? mode name machine.interpreter with
            | none => rfl
            | some found => exact (runWatch runs _ _ heldThere).bind fun _ _ _ => rfl
      exact stores.of_eq (setVariable_apply other unnamed value notFresh _)
        (setVariable_apply (evaluate fuel) unnamed value notFresh machine)

/-- A declaration runs no code. -/
theorem declare
    (name : Text) :
    Later past (Eval.declare other name) (Eval.declare (evaluate fuel) name) machine := by
  cases known : machine.interpreter.currentFrame.bindings.contains name with
  | true =>
      simp only [Later, Eval.declare, inspect_bind_apply, Machine.since, known]
      rfl
  | false =>
      cases unnamed : name.isEmpty with
      | true =>
          simp only [Later, Eval.declare, inspect_bind_apply, Machine.since, known,
            Eval.setVariable, unnamed]
          rfl
      | false =>
          simp only [Later, Eval.declare, inspect_bind_apply, Machine.since, known,
            Eval.setVariable, unnamed]
          rfl

/-- A callee starts in its new frame with its variables there. -/
theorem inOwnFrame
    {action : Run σ → Eval σ α}
    (callee : Callee)
    (pairs : List (Text × Text))
    (held : (Scope.serving (heedless past)).holds machine.interpreter)
    (inside : ∀ start : Machine σ, (Scope.serving (heedless past)).holds start.interpreter →
      Later past (action other) (action (evaluate fuel)) start) :
    Later past (Eval.inOwnFrame other callee pairs (action other))
      (Eval.inOwnFrame (evaluate fuel) callee pairs (action (evaluate fuel))) machine := by
  obtain ⟨bindings, ordered, owned, puts⟩ := callee.setVariables_pushed pairs
    machine.interpreter.current machine.interpreter.frames.size
  have heldThere := (leading_heedless past).holds
    ((leading_heedless past).move held (.push callee ordered owned)) held
  have started : Later past (setVariables other .fresh pairs >>= fun _ => action other)
      (setVariables (evaluate fuel) .fresh pairs >>= fun _ => action (evaluate fuel))
      (pushed (callee.frame machine.interpreter.current) machine) :=
    (inside _ heldThere).of_eq (bind_of_ok (puts other (machine.since past) rfl))
      (bind_of_ok (puts (evaluate fuel) machine rfl))
  have leaves : Later past
      (Eval.ensuring (setVariables other .fresh pairs >>= fun _ => action other)
        (popped machine))
      (Eval.ensuring (setVariables (evaluate fuel) .fresh pairs >>= fun _ => action (evaluate fuel))
        (popped machine))
      (pushed (callee.frame machine.interpreter.current) machine) :=
    started.ensuring fun _ => rfl
  exact leaves.of_eq rfl rfl

/-- One more catcher. -/
theorem inCatcher
    {otherAction plain : Eval σ α}
    (inside : Later past otherAction plain
      { machine with interpreter :=
        { machine.interpreter with catchers := machine.interpreter.catchers + 1 } }) :
    Later past (Eval.inCatcher otherAction) (Eval.inCatcher plain) machine := by
  have leaves : Later past
      (Eval.ensuring otherAction fun after =>
        { after with interpreter :=
          { after.interpreter with catchers := machine.interpreter.catchers } })
      (Eval.ensuring plain fun after =>
        { after with interpreter :=
          { after.interpreter with catchers := machine.interpreter.catchers } })
      { machine with interpreter :=
        { machine.interpreter with catchers := machine.interpreter.catchers + 1 } } :=
    inside.ensuring fun _ => rfl
  exact leaves.of_eq rfl rfl

/-- Code whose errors are caught. -/
theorem catching
    {refused caught : Run σ → Eval σ α}
    {passed : Run σ → Text → Eval σ α}
    (runs : RunsLater past fuel other)
    (code : Text)
    (held : (Scope.serving (heedless past)).holds machine.interpreter)
    (refuses : Later past (refused other) (refused (evaluate fuel)) machine)
    (passes : ∀ value (start : Machine σ),
      (Scope.serving (heedless past)).holds start.interpreter →
      Later past (passed other value) (passed (evaluate fuel) value) start)
    (catches : ∀ start : Machine σ, (Scope.serving (heedless past)).holds start.interpreter →
      Later past (caught other) (caught (evaluate fuel)) start) :
    Later past (Eval.catching other code (refused other) (passed other) (caught other))
      (Eval.catching (evaluate fuel) code (refused (evaluate fuel)) (passed (evaluate fuel))
        (caught (evaluate fuel))) machine := by
  cases pending : machine.interpreter.error.isSome with
  | true =>
      refine refuses.of_eq ?_ ?_ <;>
        simp only [Eval.catching, hasError_bind_apply, Machine.since, pending, if_true]
  | false =>
      have goes : Later past
          (other code false >>= fun value => hasError >>= fun failed =>
            if failed then clearError >>= fun _ => caught other else passed other value)
          (evaluate fuel code false >>= fun value => hasError >>= fun failed =>
            if failed then clearError >>= fun _ => caught (evaluate fuel)
            else passed (evaluate fuel) value) machine := by
        refine (runs code false machine held).bind fun value between ran => ?_
        have led := (through_heedless past fuel).here code false held
        rw [final_of_ok ran] at led
        have heldThere := led.1 held
        cases failed : between.interpreter.error.isSome with
        | true =>
            have cleared := catches
              { between with interpreter := { between.interpreter with error := none } } heldThere
            refine cleared.of_eq ?_ ?_
            · simp only [hasError_bind_apply, Machine.since, failed, if_true]
              rfl
            · simp only [hasError_bind_apply, failed, if_true]
              rfl
        | false =>
            refine (passes value between heldThere).of_eq ?_ ?_ <;>
              simp only [hasError_bind_apply, Machine.since, failed, Bool.false_eq_true, if_false]
      refine goes.of_eq ?_ ?_ <;>
        simp only [Eval.catching, hasError_bind_apply, Machine.since, pending, Bool.false_eq_true,
          if_false]

/-- Code in a jail. -/
theorem inJail
    {other plain : Run σ}
    (clean : Bool)
    (code : Text)
    (later : Later past (other code true) (plain code true) (jailMachine clean machine)) :
    Later past (Eval.inJail other clean code) (Eval.inJail plain clean code) machine := by
  have evaluates : Later past
      (Eval.evaluateIn other machine.interpreter.context code)
      (Eval.evaluateIn plain machine.interpreter.context code)
      { machine with interpreter := jailInterpreter machine.interpreter clean } :=
    .evaluateIn later
  have inside : Later past
      (Eval.ensuring (Eval.evaluateIn other machine.interpreter.context code) fun after =>
        { after with interpreter := machine.interpreter })
      (Eval.ensuring (Eval.evaluateIn plain machine.interpreter.context code) fun after =>
        { after with interpreter := machine.interpreter })
      { machine with interpreter := jailInterpreter machine.interpreter clean } :=
    evaluates.ensuring fun _ => rfl
  exact inside.of_eq rfl rfl

end Later

/-- What is assembled, random numbers apart, ends in a world with a past as it does without. -/
theorem Assembled.later
    {action : Run σ → Eval σ α}
    (runs : RunsLater past fuel other)
    (assembled : Assembled ((Scope.serving (heedless past)).toRealm.without .random) action) :
    ∀ machine : Machine σ, (Scope.serving (heedless past)).holds machine.interpreter →
      Later past (action other) (action (evaluate fuel)) machine := by
  induction assembled with
  | pure value =>
      exact fun _ _ => rfl
  | bind firstAssembled _ first next =>
      intro machine held
      refine (first machine held).bind fun value between ran => next value between ?_
      obtain ⟨_, itinerary⟩ := firstAssembled.exists_itinerary
        ((leading_heedless past).without _) ((through_heedless past fuel).without _) machine held
      have ends := itinerary.ends
      rw [final_of_ok ran] at ends
      exact ends.1 held
  | consult view _ _ next =>
      exact fun machine held => (next machine.interpreter held machine held).of_eq rfl rfl
  | step step =>
      exact fun _ _ => rfl
  | record offset reason =>
      exact fun _ _ => .raiseAt offset reason
  | drop _ =>
      exact fun _ _ => rfl
  | ask asks =>
      exact fun _ _ => .asked asks
  | cancellation =>
      intro machine _
      simp only [Later, Eval.cancellation, Machine.since]
      cases machine.interpreter.context <;> rfl
  | halt stop _ _ =>
      exact fun _ _ => rfl
  | nested code ownResult =>
      exact runs code ownResult
  | assign name value notFresh =>
      exact fun _ held => .setVariable runs name value notFresh held
  | declare name _ =>
      exact fun _ _ => .declare name
  | watch name code _ =>
      exact fun _ _ => rfl
  | heading heading code _ =>
      exact fun _ held => .heading runs heading code held
  | inOwnFrame callee pairs _ inside =>
      exact fun _ held => .inOwnFrame callee pairs held inside
  | inCatcher _ inside =>
      exact fun _ held => .inCatcher (inside _ held)
  | catching code _ _ _ _ refuses passes catches =>
      exact fun machine held => .catching runs code held (refuses machine held) passes catches
  | inJail clean code _ =>
      exact fun _ held => .inJail clean code (runs code true _
        (holds_jailMachine (fun _ _ heedless => heedless.jail) clean held))

end Level

/-! ## Random numbers -/

/-- The number that is drawn from a state of the random numbers, and the state behind it. -/
def drawFrom (randomness : UInt64) : Float × UInt64 :=
  let drew := ({ randomness, host := () } : World Unit).random
  (drew.1, drew.2.randomness)

/-- The next random number hangs on the last one only. -/
theorem random_eq
    (world : World σ) :
    world.random =
      ((drawFrom world.randomness).1,
        { world with randomness := (drawFrom world.randomness).2 }) := by
  simp only [World.random, drawFrom]

/-- Draw a random number as if so many had not been drawn before. -/
def randomBefore (drawn : UInt64) (world : World σ) : Float × World σ :=
  let (number, after) := { world with randomness := world.randomness - drawn }.random
  (number, { after with randomness := after.randomness + drawn })

/-- Call built-in commands like those of scripts, for which no past numbers were drawn. -/
def builtinsBefore (drawn : UInt64) : Builtins σ := fun run rounds command arguments =>
  match command with
  | .random => return .value (Binary64.text (← ask (randomBefore drawn)))
  | _ => callBuiltin run rounds command arguments

/-- Only the command for random numbers looks at what was drawn before. -/
theorem builtinsBefore_of_ne
    (drawn : UInt64)
    (run : Run σ)
    (rounds : Nat)
    {command : Builtin}
    (different : command ≠ .random)
    (arguments : List Text) :
    builtinsBefore drawn run rounds command arguments =
      callBuiltin run rounds command arguments := by
  unfold builtinsBefore
  split
  · exact absurd rfl different
  · rfl

/-- What was drawn before is what is drawn after the past. -/
theorem randomBefore_since
    (past : Past σ)
    (world : World σ) :
    randomBefore past.drawn (world.since past) =
      (world.random.1, world.random.2.since past) := by
  have back : world.randomness + past.drawn - past.drawn = world.randomness :=
    UInt64.add_sub_cancel _ _
  simp only [randomBefore, random_eq, World.since, back]

/-- So random numbers are the same later, if they are drawn behind the past. -/
theorem random_later
    (past : Past σ)
    (run : Run σ)
    (rounds : Nat)
    (arguments : List Text)
    (machine : Machine σ) :
    Later past (builtinsBefore past.drawn run rounds .random arguments)
      (callBuiltin run rounds .random arguments) machine := by
  have drawn : Later past (ask (randomBefore past.drawn)) (ask World.random) machine := by
    simp only [Later, ask, Machine.since, randomBefore_since]
    rfl
  exact drawn.bind fun _ _ _ => rfl

/-! ## Evaluations -/

/-- Evaluations in a world with a past are compared with those without. -/
def laterComparison (past : Past σ) : Comparison (Scope.serving (heedless past)).toRealm where
  alike other plain machine :=
    (Scope.serving (heedless past)).holds (final plain machine).interpreter ∧
      Later past other plain machine
  part := (Scope.serving (heedless past)).toRealm.without .random
  drops := True.intro
  of_eq alike sameOther samePlain := by
    refine ⟨?_, alike.2.of_eq (sameOther _ rfl) samePlain⟩
    rw [final, samePlain]
    exact alike.1
  exhausted held := ⟨held, rfl⟩
  bind {_ _ _ plain _ _ machine} held first second := by
    cases ran : plain machine with
    | error stop after =>
        have ends := first.1
        rw [final_of_error ran] at ends
        refine ⟨?_, first.2.bind fun value between went => ?_⟩
        · rw [final_of_error (bind_of_error ran)]
          exact ends
        · rw [ran] at went
          cases went
    | ok value between =>
        have ends := first.1
        rw [final_of_ok ran] at ends
        have follows := second value between ran ends
        refine ⟨?_, first.2.bind fun value between went => ?_⟩
        · rw [final, bind_of_ok ran]
          exact follows.1
        · rw [ran] at went
          cases went
          exact follows.2
  script {other plain} code machine held body := by
    have inside := body held
    have leaves := (leading_heedless past).move inside.1 (.of_control
      (final plain (entered code machine)) machine.interpreter.active
      (final plain (entered code machine)).interpreter.source
      (final plain (entered code machine)).interpreter.error
      (final plain (entered code machine)).interpreter.catchers)
    have closes : Later past (Eval.ensuring other (left machine))
        (Eval.ensuring plain (left machine)) (entered code machine) :=
      inside.2.ensuring fun _ => rfl
    refine ⟨?_, closes.of_eq rfl rfl⟩
    have sameEnd : final (asScript code plain) machine =
        left machine (final plain (entered code machine)) :=
      final_ensuring _ _ _
    rw [sameEnd]
    exact (leading_heedless past).holds leaves inside.1
  assembled {fuel _} runs _ _ assembled machine held := by
    obtain ⟨_, itinerary⟩ := assembled.exists_itinerary ((leading_heedless past).without _)
      ((through_heedless past fuel).without _) machine held
    exact ⟨itinerary.ends.1 held, assembled.later
      (fun code ownResult machine held => (runs code ownResult machine held).2) machine held⟩

/--
Code ends in a world with a past as it does without that past, if random numbers are drawn there as
if the past had drawn none.
-/
theorem evaluateVia_later
    (past : Past σ)
    (fuel : Nat)
    (code : Text)
    (ownResult : Bool)
    {machine : Machine σ}
    (held : (Scope.serving (heedless past)).holds machine.interpreter) :
    Later past (evaluateVia (dispatchWith (builtinsBefore past.drawn)) fuel code ownResult)
      (evaluate fuel code ownResult) machine := by
  refine ((laterComparison past).evaluateVia_dispatchWith ?_ fuel code ownResult machine held).2
  intro other fuel runs command arguments machine held _
  have calls : Assembled (Scope.serving (heedless past)).toRealm fun run =>
      callBuiltin run fuel command arguments :=
    .callBuiltin fuel True.intro arguments
  obtain ⟨_, itinerary⟩ := calls.exists_itinerary (leading_heedless past)
    (through_heedless past fuel) machine held
  refine ⟨itinerary.ends.1 held, ?_⟩
  by_cases draws : command = .random
  · rw [draws]
    exact random_later past other fuel arguments machine
  · rw [builtinsBefore_of_ne past.drawn other fuel draws arguments]
    have allowed : ((Scope.serving (heedless past)).toRealm.without .random).allowed command :=
      ⟨True.intro, draws⟩
    exact (Assembled.callBuiltin fuel allowed arguments).later
      (fun code ownResult machine held => (runs code ownResult machine held).2) machine held

/-- If the past has drawn no random numbers, there are none to be drawn in another way. -/
theorem builtinsBefore_zero :
    builtinsBefore (σ := σ) 0 = callBuiltin := by
  funext run rounds command arguments
  by_cases draws : command = .random
  · have undrawn : randomBefore (σ := σ) 0 = World.random := by
      funext world
      simp only [randomBefore, random_eq, UInt64.sub_zero, UInt64.add_zero]
    rw [draws]
    simp only [builtinsBefore, undrawn]
    rfl
  · exact builtinsBefore_of_ne 0 run rounds draws arguments

/-- Code ends in a world with a past that has drawn no random numbers as it does without. -/
theorem evaluate_later
    {past : Past σ}
    (undrawn : past.drawn = 0)
    (fuel : Nat)
    (code : Text)
    (ownResult : Bool)
    {machine : Machine σ}
    (held : (Scope.serving (heedless past)).holds machine.interpreter) :
    Later past (evaluate fuel code ownResult) (evaluate fuel code ownResult) machine := by
  have plain : dispatchWith (builtinsBefore past.drawn) = dispatch (σ := σ) := by
    rw [undrawn, builtinsBefore_zero]
    rfl
  have later := evaluateVia_later past fuel code ownResult held
  rwa [plain, evaluateVia_dispatch] at later

end Eval

end LittleScript
