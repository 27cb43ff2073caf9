import LittleScript.Proofs.ControlState
import LittleScript.Proofs.Progress

namespace LittleScript

/-!
# Evaluations that end

Where no command loops or opens a jail, every evaluation ends: with a value, with a script error, or
by nesting too deeply.  Each nested evaluation is one deeper on the same interpreter, so that the
limit bounds how many of them can be nested, and each evaluation takes its text bit by bit.  The
outcome depends on none of the bounds with which evaluations are run.
-/

open Source (Cursor)

variable {σ : Type}

/-- A built-in command that neither loops nor opens a jail. -/
def Builtin.LoopFree (command : Builtin) : Prop :=
  command ≠ .whileLoop ∧ command ≠ .forLoop ∧ command ≠ .jailEvaluate

namespace Eval

/-! ## Rounds of loops -/

/-- A command that does not loop does not depend on how many rounds a loop may have. -/
theorem callBuiltin_rounds
    (run : Run σ)
    (rounds otherRounds : Nat)
    {command : Builtin}
    (loopFree : command.LoopFree)
    (arguments : List Text) :
    callBuiltin run rounds command arguments = callBuiltin run otherRounds command arguments := by
  cases command with
  | whileLoop =>
      exact absurd rfl loopFree.1
  | forLoop =>
      exact absurd rfl loopFree.2.1
  | _ =>
      rfl

/-- Where no command loops, calling commands does not depend on it either. -/
theorem dispatch_rounds
    (run : Run σ)
    (rounds otherRounds : Nat)
    (command : List Text)
    {machine : Machine σ}
    (offers : machine.interpreter.OffersOnly (Definition.Among Builtin.LoopFree)) :
    dispatch run rounds command machine = dispatch run otherRounds command machine := by
  simp only [dispatch, interpreter_bind_apply]
  cases named : machine.interpreter.commands.get? (command.headD []) with
  | none =>
      rfl
  | some id =>
      cases found : machine.interpreter.function? id with
      | none =>
          simp only [found]
      | some function =>
          obtain ⟨title, definition⟩ := function
          cases definition with
          | builtin builtin =>
              have loopFree : builtin.LoopFree := offers.of_get? named found
              simp only [found, callBuiltin_rounds run rounds otherRounds loopFree]
          | host action =>
              exact (offers.of_get? named found).elim
          | script parameters body =>
              simp only [found]

section Rounds

variable {limits : Limits} {depth : Nat} {run : Run σ}
  (endures : ∀ code ownResult, Endures (Interpreter.AtDepth Builtin.LoopFree limits (depth + 1))
    (fun _ => True) (run code ownResult))
  (rounds otherRounds : Nat)

include endures

theorem commandAt_rounds
    (bound : Nat)
    (reader : Reader)
    (cursor : Cursor)
    {machine : Machine σ}
    (standing : machine.interpreter.AtDepth Builtin.LoopFree limits (depth + 1)) :
    commandAt run rounds bound reader cursor machine =
      commandAt run otherRounds bound reader cursor machine := by
  have ground : Ground (.among Builtin.LoopFree limits) _ := ground_among (σ := σ) depth
  rw [commandAt, commandAt]
  refine bind_congr_of_ok fun _ noted ranMark => ?_
  cases ranMark
  refine bind_congr_of_ok fun cause asked ranCancellation => ?_
  obtain rfl := cancellation_unchanged ranCancellation
  cases cause with
  | some cause =>
      rfl
  | none =>
      refine bind_congr_of_ok fun read ready ranWords => ?_
      have readyStanding := (Composed.words reader bound cursor).stands_of_ok ground endures
        (ground.mark cursor.offset standing) ranWords
      cases read with
      | none =>
          rfl
      | some read =>
          have sameCall := dispatch_rounds run rounds otherRounds read.1 readyStanding.offers
          simp only [hasError_bind_apply]
          split
          · rfl
          · split
            · rfl
            · exact bind_congr_first sameCall

theorem commands_rounds
    (reader : Reader)
    (bound count : Nat) :
    ∀ (cursor : Cursor) (last : Text) {machine : Machine σ},
      machine.interpreter.AtDepth Builtin.LoopFree limits (depth + 1) →
      commands run rounds reader bound count cursor last machine =
        commands run otherRounds reader bound count cursor last machine := by
  have ground : Ground (.among Builtin.LoopFree limits) _ := ground_among (σ := σ) depth
  induction count with
  | zero =>
      exact fun _ _ _ _ => rfl
  | succ count inductionHypothesis =>
      intro cursor last machine standing
      have sameRound := commandAt_rounds endures rounds otherRounds bound reader cursor standing
      rw [commands, commands]
      simp only [hasError_bind_apply]
      split
      · rfl
      · refine (bind_congr_first sameRound).trans (bind_congr_of_ok fun round after ran => ?_)
        have stillStanding := (Composed.commandAt otherRounds bound reader cursor).stands_of_ok
          ground endures standing ran
        obtain ⟨value, next⟩ := round
        cases next with
        | none =>
            rfl
        | some next =>
            exact inductionHypothesis next value stillStanding

theorem runCommands_rounds
    (code : Text)
    (ownResult outermost : Bool)
    {machine : Machine σ}
    (standing : machine.interpreter.AtDepth Builtin.LoopFree limits (depth + 1)) :
    runCommands run rounds code ownResult outermost machine =
      runCommands run otherRounds code ownResult outermost machine := by
  have ground : Ground (.among Builtin.LoopFree limits) _ := ground_among (σ := σ) depth
  rw [runCommands, runCommands]
  refine bind_congr_of_ok fun _ guarded ranGuard => ?_
  have guardedStanding := Composed.guardDepth.stands_of_ok ground endures standing ranGuard
  refine bind_congr_of_ok fun _ started ranPrepare => ?_
  have startedStanding := (Composed.prepare ownResult outermost fun _ => True.intro).stands_of_ok
    ground endures guardedStanding ranPrepare
  refine bind_congr_first ?_
  rw [runText, runText]
  refine bind_congr_of_ok fun first between skipped => ?_
  have standingThere := (Composed.skipBlanks ⟨outermost, false⟩ (.start code)).stands_of_ok ground
    endures startedStanding skipped
  exact commands_rounds endures rounds otherRounds _ _ _ first [] standingThere

/-- Where no command loops, a script does not depend on how many rounds a loop may have. -/
theorem script_rounds
    (code : Text)
    (ownResult : Bool)
    {machine : Machine σ}
    (standing : machine.interpreter.AtDepth Builtin.LoopFree limits depth) :
    script run rounds code ownResult machine = script run otherRounds code ownResult machine := by
  have inside : (entered code machine).interpreter.AtDepth Builtin.LoopFree limits (depth + 1) :=
    ⟨⟨standing.offers, standing.limits⟩, congrArg (· + 1) standing.depth⟩
  have sameBody :
      scriptBody run rounds code ownResult machine.interpreter.active.isEmpty
          (entered code machine) =
        scriptBody run otherRounds code ownResult machine.interpreter.active.isEmpty
          (entered code machine) := by
    rw [scriptBody_eq, scriptBody_eq]
    exact bind_congr_first (runCommands_rounds endures rounds otherRounds code ownResult _ inside)
  rw [script_apply, script_apply, ensuring, ensuring, sameBody]

end Rounds

/-! ## Fuel -/

/-- Enough fuel for as many evaluations as may still be nested at a depth. -/
def Ample (limits : Limits) (depth fuel : Nat) : Prop :=
  0 < fuel ∧ limits.evaluations < fuel + depth

/-- Within the limit the fuel that is left is enough for what is nested. -/
theorem Ample.deeper
    {limits : Limits}
    {depth fuel : Nat}
    (ample : Ample limits depth (fuel + 1))
    (within : depth < limits.evaluations) :
    Ample limits (depth + 1) fuel := by
  obtain ⟨-, enough⟩ := ample
  constructor
  · omega
  · omega

/-- Where no command loops or opens a jail, any amount of fuel that is enough does the same. -/
theorem evaluate_of_ample
    {limits : Limits}
    (fuel : Nat) :
    ∀ {depth otherFuel : Nat}, Ample limits depth fuel → Ample limits depth otherFuel →
      ∀ (code : Text) (ownResult : Bool) {machine : Machine σ},
        machine.interpreter.AtDepth Builtin.LoopFree limits depth →
        evaluate fuel code ownResult machine = evaluate otherFuel code ownResult machine := by
  induction fuel with
  | zero =>
      intro _ _ ample
      exact absurd ample.1 (Nat.lt_irrefl 0)
  | succ fuel inductionHypothesis =>
      intro depth otherFuel ample otherAmple code ownResult machine standing
      obtain ⟨otherFuel, rfl⟩ :=
        Nat.exists_eq_add_one_of_ne_zero (Nat.ne_zero_of_lt otherAmple.1)
      rw [evaluate, evaluate]
      by_cases within : depth < limits.evaluations
      · have agree : AgreeOn (.among Builtin.LoopFree limits)
            (Interpreter.AtDepth Builtin.LoopFree limits (depth + 1)) (fun _ => False)
            (evaluate fuel) (evaluate (σ := σ) otherFuel) := by
          constructor
          · intro code ownResult machine standing
            exact .inl (inductionHypothesis (ample.deeper within) (otherAmple.deeper within) code
              ownResult standing)
          · intro jails
            exact absurd rfl jails.2.2
        rw [script_rounds (evaluate_comesBack fuel (depth + 1)) fuel otherFuel code ownResult
          standing]
        rcases script_endAlike_atDepth agree (evaluate_comesBack fuel (depth + 1)) otherFuel code
          ownResult standing with same | ⟨_, _, impossible, _⟩
        · exact same
        · exact impossible.elim
      · have beyond :
            machine.interpreter.limits.evaluations ≤ machine.interpreter.depth := by
          rw [standing.limits, standing.depth]
          exact Nat.le_of_not_lt within
        obtain ⟨world, refused⟩ := script_of_beyond code ownResult beyond
        rw [refused, refused]

/-- Where no command loops or opens a jail, an evaluation stops only by nesting too deeply. -/
theorem evaluate_ends
    {limits : Limits}
    {depth fuel : Nat}
    (ample : Ample limits depth fuel)
    (code : Text)
    (ownResult : Bool) :
    Endures (σ := σ) (Interpreter.AtDepth Builtin.LoopFree limits depth)
      (fun stop => ∃ error, stop = .tooDeep error) (evaluate fuel code ownResult) := by
  refine evaluate_endures (fun error => ⟨error, rfl⟩) (fun loops => ?_) (fun jails => ?_) fuel depth
    (.inl ample) code ownResult
  · rcases loops with isWhile | isFor
    · exact absurd rfl isWhile.1
    · exact absurd rfl isFor.2.1
  · exact absurd rfl jails.2.2

/--
Where no command loops or opens a jail and none is a host's, every evaluation of a host on an idle
interpreter ends: all fuel beyond the limit leads to one outcome, which is a value, a script error
or the fatal error of nesting too deeply.  It leaves an interpreter on which the same holds.  And
every round of the readers and of the commands shortens the text, so that their bounds are never
used up.
-/
theorem loop_free_evaluation_ends
    (context : Context)
    (code : Text)
    (machine : Machine σ)
    (offers : machine.interpreter.OffersOnly (Definition.Among Builtin.LoopFree))
    (idle : machine.interpreter.active = []) :
    (∃ evaluated after,
        (∀ fuel, machine.interpreter.limits.evaluations < fuel →
          machine.perform (evaluateIn (evaluate fuel) context code) =
            (.finished evaluated, after)) ∧
          after.interpreter.OffersOnly (Definition.Among Builtin.LoopFree) ∧
          after.interpreter.active = [] ∧
          after.interpreter.limits = machine.interpreter.limits) ∧
      TakesText σ := by
  refine ⟨?_, takesText⟩
  let start := (outermostCall context code machine).machine
  have standing :
      start.interpreter.AtDepth Builtin.LoopFree machine.interpreter.limits 0 :=
    ⟨⟨offers, rfl⟩, List.length_eq_zero_iff.mpr idle⟩
  have ample : ∀ fuel, machine.interpreter.limits.evaluations < fuel →
      Ample machine.interpreter.limits 0 fuel :=
    fun fuel enough => ⟨Nat.zero_lt_of_lt enough, enough⟩
  let least := machine.interpreter.limits.evaluations + 1
  have leastAmple := ample least (Nat.lt_succ_self _)
  have ends := evaluate_ends leastAmple code true start standing
  have finishes : ∃ evaluated,
      (machine.perform (evaluateIn (evaluate least) context code)).1 = .finished evaluated := by
    rw [perform_evaluateIn _ context code idle]
    cases ran : evaluate least code true start with
    | ok value after =>
        exact ⟨_, rfl⟩
    | error stop after =>
        obtain ⟨error, rfl⟩ := ends.2 stop after ran
        exact ⟨_, rfl⟩
  obtain ⟨evaluated, finished⟩ := finishes
  refine ⟨evaluated, (machine.perform (evaluateIn (evaluate least) context code)).2, ?_, ?_⟩
  · intro fuel enough
    have same := evaluate_of_ample fuel (ample fuel enough) leastAmple code true standing
    rw [← finished, Machine.perform, Machine.perform, evaluateIn_congr same]
  · rw [perform_snd, final_evaluateIn]
    exact ⟨ends.1.offers, List.length_eq_zero_iff.mp ends.1.depth, ends.1.limits⟩

end Eval

/-! ## An interpreter without loops -/

namespace Interpreter

/-- Every command of an interpreter has a definition, which is accepted under its name. -/
def Names (accept : Text → Definition σ → Prop) (interpreter : Interpreter σ) : Prop :=
  ∀ entry ∈ interpreter.commands.entries, ∃ function,
    interpreter.function? entry.2 = some function ∧ accept entry.1 function.definition

namespace Names

variable {accept : Text → Definition σ → Prop} {interpreter : Interpreter σ}

theorem define
    (names : interpreter.Names accept)
    {name : Text}
    {definition : Definition σ}
    (accepted : accept name definition) :
    (interpreter.define name definition).Names accept := by
  intro entry member
  rcases Table.mem_insertEntry member with rfl | wasThere
  · exact ⟨⟨name, definition⟩, Array.getElem?_push_size, accepted⟩
  · obtain ⟨function, found, itsAccepted⟩ := names entry wasThere
    have older : entry.2 < interpreter.functions.size := (Array.getElem?_eq_some_iff.mp found).1
    refine ⟨function, ?_, itsAccepted⟩
    rw [function?, Interpreter.define, Array.getElem?_push_lt older]
    exact (Array.getElem?_eq_getElem older).symm.trans found

theorem foldl_define
    {α : Type}
    (name : α → Text)
    (definition : α → Definition σ)
    (items : List α)
    (names : interpreter.Names accept)
    (accepted : ∀ item, accept (name item) (definition item)) :
    (items.foldl (fun extended item => extended.define (name item) (definition item))
      interpreter).Names accept := by
  induction items generalizing interpreter with
  | nil =>
      exact names
  | cons item rest inductionHypothesis =>
      exact inductionHypothesis (names.define (accepted item))

/-- What is left after a command has been deleted has another name. -/
theorem delete
    (names : interpreter.Names accept)
    (removed : Text) :
    (interpreter.delete removed).Names fun name definition =>
      accept name definition ∧ name ≠ removed := by
  intro entry member
  obtain ⟨wasThere, kept⟩ := List.mem_filter.mp member
  obtain ⟨function, found, accepted⟩ := names entry wasThere
  exact ⟨function, found, accepted, by simpa using kept⟩

theorem withSystem
    (names : interpreter.Names accept)
    (table : Table FunctionId) :
    ({ interpreter with system := table } : Interpreter σ).Names accept :=
  names

/-- A fresh interpreter has the built-in commands under their names. -/
theorem fresh
    (limits : Limits)
    (callbacks : Callbacks σ) :
    (Interpreter.fresh limits callbacks).Names fun name definition =>
      ∃ command : Builtin, name = command.name ∧ definition = .builtin command := by
  have empty : ({ limits, callbacks } : Interpreter σ).Names fun name definition =>
      ∃ command : Builtin, name = command.name ∧ definition = .builtin command :=
    fun _ member => nomatch member
  have registered := empty.foldl_define Builtin.name Definition.builtin Builtin.all
    fun command => ⟨command, rfl, rfl⟩
  rw [Interpreter.fresh, withBuiltins]
  exact registered.withSystem _

end Names

/-- A fresh interpreter from which the commands that loop or open jails have been removed. -/
def withoutLoops (limits : Limits) (callbacks : Callbacks σ) : Interpreter σ :=
  (((Interpreter.fresh limits callbacks).delete (Builtin.name .whileLoop)).delete
    (Builtin.name .forLoop)).delete (Builtin.name .jailEvaluate)

theorem offersOnly_withoutLoops
    (limits : Limits)
    (callbacks : Callbacks σ) :
    (withoutLoops limits callbacks).OffersOnly (Definition.Among Builtin.LoopFree) := by
  have names := (((Names.fresh limits callbacks).delete (Builtin.name .whileLoop)).delete
    (Builtin.name .forLoop)).delete (Builtin.name .jailEvaluate)
  intro entry member function found
  obtain ⟨other, isFound, ⟨⟨⟨command, isNamed, isBuiltin⟩, notWhile⟩, notFor⟩, notJail⟩ :=
    names entry member
  cases found.symm.trans isFound
  rw [isBuiltin]
  refine ⟨?_, ?_, ?_⟩
  · rintro rfl
    exact notWhile isNamed
  · rintro rfl
    exact notFor isNamed
  · rintro rfl
    exact notJail isNamed

end Interpreter

namespace Eval

/-- The code of a function that calls itself. -/
def runaway : Text :=
  Text.ofString "func f {} {f};f"

/-- A machine without loops on which no three evaluations may be nested. -/
def loopless : Machine Unit where
  interpreter := .withoutLoops { evaluations := 2 } {}
  world := { host := () }

/-- How an evaluation failed. -/
def failure? : Outcome Evaluated → Option Failure
  | .finished ⟨_, failure⟩ => failure
  | .stopped _ => none

/-- A function that calls itself ends with the fatal error, with any fuel beyond the limit. -/
theorem loop_free_evaluation_ends_runaway :
    loopless.interpreter.OffersOnly (Definition.Among Builtin.LoopFree) ∧
      ∃ evaluated after,
        (∀ fuel, 2 < fuel →
          loopless.perform (evaluateIn (evaluate fuel) .background runaway) =
            (.finished evaluated, after)) ∧
          evaluated.failure = some (.fatal ⟨2, 3⟩) := by
  have offers := Interpreter.offersOnly_withoutLoops (σ := Unit) { evaluations := 2 } {}
  have limit : loopless.interpreter.limits.evaluations = 2 := by
    decide +kernel
  obtain ⟨⟨evaluated, after, ends, -⟩, -⟩ :=
    loop_free_evaluation_ends .background runaway loopless offers (by decide +kernel)
  rw [limit] at ends
  refine ⟨offers, evaluated, after, ends, ?_⟩
  have fails : failure? (loopless.perform (evaluateIn (evaluate 3) .background runaway)).1 =
      some (.fatal ⟨2, 3⟩) := by
    decide +kernel
  rwa [ends 3 (Nat.lt_succ_self 2)] at fails

end Eval

end LittleScript
