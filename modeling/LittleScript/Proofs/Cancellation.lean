import LittleScript.Proofs.Replacement
import LittleScript.Proofs.Serving

namespace LittleScript

/-!
# Cancellation

Code looks at its context where a command starts, before the words of the command are read.  Once
the context is cancelled no command is started any more, whatever encloses the one that cancelled
it.  A command whose words were being read at that moment is called all the same: one for each
evaluation that was reading, from the innermost outward.
-/

variable {σ α β : Type}

/-- The running context has been cancelled. -/
def Machine.Cancelled (machine : Machine σ) : Prop :=
  machine.interpreter.context = .running ∧ machine.world.cancellation.isSome = true

instance (machine : Machine σ) : Decidable machine.Cancelled :=
  inferInstanceAs (Decidable (_ ∧ _))

/-- From one world to another a cancellation is not taken back. -/
def World.KeepsCancelled (before after : World σ) : Prop :=
  before.cancellation.isSome = true → after.cancellation.isSome = true

/-- No callback takes a cancellation back. -/
structure Callbacks.Permanent (callbacks : Callbacks σ) : Prop where
  performs : ∀ {update}, callbacks.Performs update → ∀ world : World σ,
    world.KeepsCancelled (update world)
  asked : ∀ {handle}, callbacks.setVariable = some handle → ∀ name value (world : World σ),
    world.KeepsCancelled (handle name value world).2

namespace Eval

open Source (Cursor)

/-- Callbacks that take no cancellation back, in the running context. -/
def heeds (callbacks : Callbacks σ) (context : Context) : Prop :=
  context = .running ∧ callbacks.Permanent

/-- Cancellations are kept from one world to the next, and so over any number. -/
theorem onward_cancelled :
    Onward (σ := σ) heeds World.KeepsCancelled where
  trans first second := second ∘ first
  routine routine := by
    cases routine <;> exact id
  performs served performs := served.2.performs performs
  asked served handled := served.2.asked handled

/-- The output of a host takes no cancellation back if none of its callbacks does. -/
theorem heeds_jail
    (callbacks : Callbacks σ)
    (context : Context)
    (served : heeds callbacks context) :
    heeds { write := callbacks.write } context := by
  refine ⟨served.1, ⟨fun performs => ?_, fun handled => nomatch handled⟩⟩
  cases performs with
  | write text handled => exact served.2.performs (.write text handled)
  | exit _ handled => exact nomatch handled
  | read _ handled => exact nomatch handled
  | store _ _ handled => exact nomatch handled
  | source _ handled => exact nomatch handled
  | error _ handled => exact nomatch handled
  | getVariable _ handled => exact nomatch handled

/-! ## Code that starts after the cancellation -/

section Quiet

variable {machine : Machine σ}

/-- In a cancelled context the cause of the cancellation is seen. -/
theorem cancellation_of_cancelled
    (cancelled : machine.Cancelled) :
    ∃ cause, cancellation machine = .ok (some cause) machine := by
  obtain ⟨cause, isCause⟩ := Option.isSome_iff_exists.mp cancelled.2
  refine ⟨cause, ?_⟩
  simp only [cancellation, cancelled.1, isCause]

/-- Otherwise none is seen. -/
theorem cancellation_of_not_cancelled
    (notCancelled : ¬machine.Cancelled) :
    cancellation machine = .ok none machine := by
  simp only [cancellation]
  cases context : machine.interpreter.context with
  | background =>
      rfl
  | running =>
      have isNone : machine.world.cancellation = none := by
        refine Option.not_isSome_iff_eq_none.mp fun isSome => notCancelled ⟨context, isSome⟩
      simp only [isNone]

/-- Raising an error neither cancels the context nor takes that back. -/
theorem raiseAt_cancelled
    (offset : Int)
    (reason : Reason)
    (cancelled : machine.Cancelled) :
    ∃ after, raiseAt offset reason machine = .ok () after ∧ after.Cancelled := by
  rw [raiseAt, interpreter_bind_apply]
  cases machine.interpreter.error with
  | none => exact ⟨_, rfl, cancelled⟩
  | some error => exact ⟨machine, rfl, cancelled⟩

/-- Skipping blanks does not take a cancellation back. -/
theorem skipBlanks_cancelled
    (reader : Reader)
    (cursor : Cursor)
    (cancelled : machine.Cancelled) :
    ∃ next after, skipBlanks reader cursor machine = .ok next after ∧ after.Cancelled := by
  simp only [skipBlanks]
  cases (Source.skipBlanks reader.acrossLines cursor).openComment with
  | none =>
      exact ⟨_, machine, rfl, cancelled⟩
  | some start =>
      have reports : ∃ after, (malformed reader start .openComment : Eval σ Unit) machine =
          .ok () after ∧ after.Cancelled := by
        rw [malformed]
        split
        · exact raiseAt_cancelled _ _ cancelled
        · exact raiseAt_cancelled _ _ cancelled
      obtain ⟨after, reported, stillCancelled⟩ := reports
      exact ⟨_, after, bind_of_ok reported, stillCancelled⟩

/-- A command that would start after the cancellation ends its script, and is not called. -/
theorem commandAtVia_of_cancelled
    (cancelled : machine.Cancelled)
    (bound : Nat)
    (reader : Reader)
    (cursor : Cursor) :
    ∃ after, ∀ (call : List Text → Eval σ Text) (run : Run σ),
      commandAtVia call run bound reader cursor machine = .ok ([], none) after := by
  have marks : (marked machine cursor.offset).Cancelled := cancelled
  obtain ⟨cause, isCancelled⟩ := cancellation_of_cancelled marks
  obtain ⟨after, raised, -⟩ := raiseAt_cancelled
    ((marked machine cursor.offset).interpreter.active.getLast?.getD 0 : Nat)
    (.cancelled cause) marks
  refine ⟨after, fun call run => ?_⟩
  rw [commandAtVia, bind_of_ok (markCommand_apply cursor.offset machine), bind_of_ok isCancelled]
  exact bind_of_ok raised

/-- After the cancellation it does not matter how commands would be called. -/
theorem commandsVia_of_cancelled
    (cancelled : machine.Cancelled)
    (call other : List Text → Eval σ Text)
    (run otherRun : Run σ)
    (reader : Reader)
    (depth bound : Nat)
    (cursor : Cursor)
    (last : Text) :
    commandsVia call run reader depth bound cursor last machine =
      commandsVia other otherRun reader depth bound cursor last machine := by
  cases bound with
  | zero =>
      rfl
  | succ bound =>
      obtain ⟨after, ends⟩ := commandAtVia_of_cancelled cancelled depth reader cursor
      rw [commandsVia, commandsVia]
      refine bind_congr_of_ok fun failed between looked => ?_
      cases looked
      split
      · rfl
      · rw [bind_of_ok (ends call run), bind_of_ok (ends other otherRun)]

/-- Code that starts after the cancellation calls no command and runs no nested code. -/
theorem scriptVia_of_cancelled
    (cancelled : machine.Cancelled)
    (call other : List Text → Eval σ Text)
    (run otherRun : Run σ)
    (code : Text)
    (ownResult : Bool) :
    scriptVia call run code ownResult machine =
      scriptVia other otherRun code ownResult machine := by
  have body : scriptBodyVia call run code ownResult machine.interpreter.active.isEmpty
        (entered code machine) =
      scriptBodyVia other otherRun code ownResult machine.interpreter.active.isEmpty
        (entered code machine) := by
    rw [scriptBodyVia, scriptBodyVia]
    refine bind_congr_of_ok fun _ guarded passed => ?_
    have same : guarded = entered code machine := by
      rw [guardDepth, interpreter_bind_apply] at passed
      split at passed
      · cases passed
      · cases passed
        rfl
    rw [bind_of_ok (prepare_apply _ _ guarded), bind_of_ok (prepare_apply _ _ guarded)]
    have stillCancelled :
        (prepared ownResult machine.interpreter.active.isEmpty guarded).Cancelled := by
      rw [same]
      cases ownResult <;> cases machine.interpreter.active.isEmpty <;> exact cancelled
    obtain ⟨first, start, skipped, startCancelled⟩ := skipBlanks_cancelled
      ⟨machine.interpreter.active.isEmpty, false⟩ (.start code) stillCancelled
    rw [bind_of_ok skipped, bind_of_ok skipped]
    exact bind_congr_first (commandsVia_of_cancelled startCancelled ..)
  rw [scriptVia, scriptVia, ensuring, ensuring, body]

/-- After the cancellation it does not matter which commands code would call. -/
theorem evaluateVia_of_cancelled
    (cancelled : machine.Cancelled)
    (dispatcher : Dispatcher σ)
    (fuel : Nat)
    (code : Text)
    (ownResult : Bool) :
    evaluateVia dispatcher fuel code ownResult machine =
      evaluate fuel code ownResult machine := by
  rw [← evaluateVia_dispatch]
  cases fuel with
  | zero => rfl
  | succ fuel => exact scriptVia_of_cancelled cancelled ..

end Quiet

/-! ## Commands whose words were being read -/

/-- A command that is called: the fuel that is left for its nested code, its words, and where. -/
structure CommandCall (σ : Type) where
  rounds : Nat
  command : List Text
  machine : Machine σ

/-- The context was cancelled while the words of the command were being read. -/
def CommandCall.Interrupted (call : CommandCall σ) : Prop :=
  call.machine.Cancelled ∧
    ∃ (before : Machine σ) (reader : Reader) (bound : Nat) (cursor after : Cursor),
      ¬before.Cancelled ∧
        words reader (evaluate call.rounds) bound cursor before =
          .ok (some (call.command, after)) call.machine

/-- Commands that were interrupted while their words were read, each further out than the last. -/
structure Belated (level : Nat) (late : List (CommandCall σ)) : Prop where
  outward : late.Pairwise fun inner outer => inner.rounds < outer.rounds
  below : ∀ call ∈ late, call.rounds < level
  interrupted : ∀ call ∈ late, call.Interrupted

/--
A dispatcher that calls commands like that of scripts until the cancellation, and after it at least
those of a list.
-/
def CallsUntilCancelled (dispatcher : Dispatcher σ) (late : List (CommandCall σ)) : Prop :=
  ∀ run rounds command (machine : Machine σ),
    (machine.Cancelled → ⟨rounds, command, machine⟩ ∈ late) →
    dispatcher run rounds command machine = dispatch run rounds command machine

/-- A dispatcher that calls certain late commands calls some of them. -/
theorem CallsUntilCancelled.mono
    {dispatcher : Dispatcher σ}
    {late fewer : List (CommandCall σ)}
    (calls : CallsUntilCancelled dispatcher late)
    (included : fewer ⊆ late) :
    CallsUntilCancelled dispatcher fewer :=
  fun run rounds command machine isLate =>
    calls run rounds command machine fun cancelled => included (isLate cancelled)

/-- No command may be late at all. -/
theorem Belated.nil
    (level : Nat) :
    Belated (σ := σ) level [] where
  outward := .nil
  below _ member := absurd member List.not_mem_nil
  interrupted _ member := absurd member List.not_mem_nil

/-- Commands that are late at one level are late at a higher one. -/
theorem Belated.mono
    {level higher : Nat}
    {late : List (CommandCall σ)}
    (belated : Belated level late)
    (atMost : level ≤ higher) :
    Belated higher late :=
  ⟨belated.outward, fun call member => Nat.lt_of_lt_of_le (belated.below call member) atMost,
    belated.interrupted⟩

/-- A command around the others that was interrupted too. -/
theorem Belated.around
    {late : List (CommandCall σ)}
    {call : CommandCall σ}
    (belated : Belated call.rounds late)
    (interrupted : call.Interrupted) :
    Belated (call.rounds + 1) (late ++ [call]) := by
  have isInnerOrLast : ∀ other ∈ late ++ [call], other ∈ late ∨ other = call := by
    simp
  constructor
  · refine List.pairwise_append.mpr ⟨belated.outward, List.pairwise_singleton _ _,
      fun inner isInner outer isOuter => ?_⟩
    rw [List.mem_singleton.mp isOuter]
    exact belated.below inner isInner
  · intro other member
    rcases isInnerOrLast other member with isInner | rfl
    · exact Nat.lt_succ_of_lt (belated.below other isInner)
    · exact Nat.lt_succ_self other.rounds
  · intro other member
    rcases isInnerOrLast other member with isInner | rfl
    · exact belated.interrupted other isInner
    · exact interrupted

/--
An action ends alike whichever dispatcher calls its commands, if the dispatcher calls those that
are listed after the cancellation.
-/
structure Settled
    (level : Nat)
    (via : Dispatcher σ → Eval σ α)
    (plain : Eval σ α)
    (machine : Machine σ)
    (late : List (CommandCall σ)) : Prop where
  belated : Belated level late
  leads : Serving heeds World.KeepsCancelled machine (final plain machine)
  quiet : machine.Cancelled → late = []
  ends : late ≠ [] → (final plain machine).world.cancellation.isSome = true
  same : ∀ dispatcher, CallsUntilCancelled dispatcher late → via dispatcher machine = plain machine

namespace Settled

variable {level : Nat} {machine : Machine σ}

/-- An action that calls no command is settled by itself. -/
theorem of_still
    {action : Eval σ α}
    (leads : Serving heeds World.KeepsCancelled machine (final action machine)) :
    Settled level (fun _ => action) action machine [] where
  belated := .nil level
  leads := leads
  quiet _ := rfl
  ends nonempty := absurd rfl nonempty
  same _ _ := rfl

/-- What is settled at one level is settled at a higher one. -/
theorem mono
    {higher : Nat}
    {via : Dispatcher σ → Eval σ α}
    {plain : Eval σ α}
    {late : List (CommandCall σ)}
    (settled : Settled level via plain machine late)
    (atMost : level ≤ higher) :
    Settled higher via plain machine late :=
  { settled with belated := settled.belated.mono atMost }

/-- An action that goes on like another one elsewhere. -/
theorem of_apply
    {via other : Dispatcher σ → Eval σ α}
    {plain otherPlain : Eval σ α}
    {start : Machine σ}
    {late : List (CommandCall σ)}
    (settled : Settled level other otherPlain start late)
    (held : (Scope.serving heeds).holds machine.interpreter)
    (leads : Serving heeds World.KeepsCancelled machine start)
    (same : ∀ dispatcher, via dispatcher machine = other dispatcher start)
    (samePlain : plain machine = otherPlain start) :
    Settled level via plain machine late := by
  have sameEnd : final plain machine = final otherPlain start := by
    rw [final, final, samePlain]
  constructor
  · exact settled.belated
  · rw [sameEnd]
    exact onward_cancelled.leading.trans leads settled.leads
  · intro cancelled
    exact settled.quiet ⟨(leads.1 held).2.1, leads.2 cancelled.2⟩
  · rw [sameEnd]
    exact settled.ends
  · intro dispatcher calls
    rw [same, samePlain, settled.same dispatcher calls]

/-- An action that runs another one and then puts something back. -/
theorem ensuring
    {via : Dispatcher σ → Eval σ α}
    {plain : Eval σ α}
    {late : List (CommandCall σ)}
    (settled : Settled level via plain machine late)
    {cleanup : Machine σ → Machine σ}
    (leaves : ∀ after, Serving heeds World.KeepsCancelled machine after →
      Serving heeds World.KeepsCancelled after (cleanup after)) :
    Settled level (fun dispatcher => Eval.ensuring (via dispatcher) cleanup)
      (Eval.ensuring plain cleanup) machine late := by
  have left := leaves _ settled.leads
  constructor
  · exact settled.belated
  · rw [final_ensuring]
    exact onward_cancelled.leading.trans settled.leads left
  · exact settled.quiet
  · rw [final_ensuring]
    exact fun nonempty => left.2 (settled.ends nonempty)
  · intro dispatcher calls
    simp only [Eval.ensuring, settled.same dispatcher calls]

/-- If commands are called late in the first of two actions, none is in the second. -/
theorem bind
    {via : Dispatcher σ → Eval σ α}
    {plain : Eval σ α}
    {nextVia : Dispatcher σ → α → Eval σ β}
    {next : α → Eval σ β}
    {between : Machine σ}
    {value : α}
    {early late : List (CommandCall σ)}
    (held : (Scope.serving heeds).holds machine.interpreter)
    (first : Settled level via plain machine early)
    (ran : plain machine = .ok value between)
    (second : Settled level (fun dispatcher => nextVia dispatcher value) (next value) between
      late) :
    Settled level (fun dispatcher => via dispatcher >>= nextVia dispatcher) (plain >>= next) machine
      (early ++ late) := by
  have leads := first.leads
  have ends := first.ends
  rw [final_of_ok ran] at leads ends
  have heldThere := leads.1 held
  have onlyOne : early = [] ∨ late = [] :=
    (Classical.em (early = [])).imp_right fun nonempty =>
      second.quiet ⟨heldThere.2.1, ends nonempty⟩
  have sameEnd : final (plain >>= next) machine = final (next value) between := by
    rw [final, final, bind_of_ok ran]
  constructor
  · rcases onlyOne with rfl | rfl
    · simpa using second.belated
    · simpa using first.belated
  · rw [sameEnd]
    exact onward_cancelled.leading.trans leads second.leads
  · intro cancelled
    have none := first.quiet cancelled
    have thereCancelled : between.Cancelled := ⟨heldThere.2.1, leads.2 cancelled.2⟩
    rw [none, second.quiet thereCancelled, List.append_nil]
  · intro nonempty
    rw [sameEnd]
    rcases onlyOne with rfl | rfl
    · exact second.ends (by simpa using nonempty)
    · exact second.leads.2 (ends (by simpa using nonempty))
  · intro dispatcher calls
    have sameFirst := first.same dispatcher (calls.mono (List.subset_append_left early late))
    have sameSecond := second.same dispatcher (calls.mono (List.subset_append_right early late))
    rw [bind_of_ok ran, ← sameSecond]
    exact bind_of_ok (sameFirst.trans ran)

/-- Where the first action stops the second one calls nothing. -/
theorem stopped
    {via : Dispatcher σ → Eval σ α}
    {plain : Eval σ α}
    {nextVia : Dispatcher σ → α → Eval σ β}
    {next : α → Eval σ β}
    {after : Machine σ}
    {stop : Stop}
    {late : List (CommandCall σ)}
    (first : Settled level via plain machine late)
    (ran : plain machine = .error stop after) :
    Settled level (fun dispatcher => via dispatcher >>= nextVia dispatcher) (plain >>= next) machine
      late := by
  have sameEnd : final (plain >>= next) machine = final plain machine := by
    rw [final_of_error (bind_of_error ran), final_of_error ran]
  constructor
  · exact first.belated
  · rw [sameEnd]
    exact first.leads
  · exact first.quiet
  · rw [sameEnd]
    exact first.ends
  · intro dispatcher calls
    rw [bind_of_error ran]
    exact bind_of_error ((first.same dispatcher calls).trans ran)

/--
Two actions are settled by the late commands of both, of which only the last can still be read.
-/
theorem exists_bind
    {via : Dispatcher σ → Eval σ α}
    {plain : Eval σ α}
    {nextVia : Dispatcher σ → α → Eval σ β}
    {next : α → Eval σ β}
    {late : List (CommandCall σ)}
    (held : (Scope.serving heeds).holds machine.interpreter)
    (first : Settled level via plain machine late)
    (second : ∀ value between, plain machine = .ok value between →
      (Scope.serving heeds).holds between.interpreter →
      ∃ late, Settled level (fun dispatcher => nextVia dispatcher value) (next value) between
        late) :
    ∃ late, Settled level (fun dispatcher => via dispatcher >>= nextVia dispatcher) (plain >>= next)
      machine late := by
  cases ran : plain machine with
  | error stop after =>
      exact ⟨late, first.stopped ran⟩
  | ok value between =>
      have leads := first.leads
      rw [final_of_ok ran] at leads
      obtain ⟨later, follows⟩ := second value between ran (leads.1 held)
      exact ⟨late ++ later, first.bind held ran follows⟩

end Settled

/-- Every evaluation with some fuel is settled. -/
def AllSettled (σ : Type) (fuel : Nat) : Prop :=
  ∀ code ownResult (machine : Machine σ), (Scope.serving heeds).holds machine.interpreter →
    ∃ late, Settled fuel (fun dispatcher => evaluateVia dispatcher fuel code ownResult)
      (evaluate fuel code ownResult) machine late

/-- Of calls that follow each other at most one has commands that are called late. -/
theorem belated_flatMap
    {fuel : Nat}
    (lates : Call σ → List (CommandCall σ))
    (calls : List (Call σ))
    (belated : ∀ call ∈ calls, Belated fuel (lates call))
    (quiet : ∀ call ∈ calls, call.machine.world.cancellation.isSome = true → lates call = [])
    (ends : ∀ call ∈ calls, lates call ≠ [] →
      (call.after (evaluate fuel)).world.cancellation.isSome = true)
    (ordered : calls.Pairwise fun early late =>
      (early.after (evaluate fuel)).world.KeepsCancelled late.machine.world) :
    Belated fuel (calls.flatMap lates) := by
  induction calls with
  | nil =>
      exact .nil fuel
  | cons call rest inductionHypothesis =>
      obtain ⟨before, orderedRest⟩ := List.pairwise_cons.mp ordered
      have later := inductionHypothesis (fun other member => belated other (by simp [member]))
        (fun other member => quiet other (by simp [member]))
        (fun other member => ends other (by simp [member])) orderedRest
      by_cases none : lates call = []
      · simpa [none] using later
      · have nothingLater : rest.flatMap lates = [] := by
          refine List.flatMap_eq_nil_iff.mpr fun other member => ?_
          exact quiet other (by simp [member])
            (before other member (ends call (by simp) none))
        simpa [nothingLater] using belated call (by simp)

section Level

variable {fuel : Nat}

/-- Whatever is assembled is settled if its nested code is. -/
theorem Assembled.exists_settled
    (nested : AllSettled σ fuel)
    {action : Run σ → Eval σ α}
    (assembled : Assembled (Scope.serving heeds).toRealm action)
    {machine : Machine σ}
    (held : (Scope.serving heeds).holds machine.interpreter) :
    ∃ late, Settled fuel (fun dispatcher => action (evaluateVia dispatcher fuel))
      (action (evaluate fuel)) machine late := by
  have leading : Leading (Scope.serving (σ := σ) heeds).toRealm _ _ := onward_cancelled.leading
  have through := onward_cancelled.through_evaluate (σ := σ) heeds_jail fuel
  obtain ⟨calls, itinerary⟩ := assembled.exists_itinerary leading through machine held
  have heldAt : ∀ call ∈ calls, (Scope.serving heeds).holds call.machine.interpreter := by
    intro call member
    cases itinerary.reached call member with
    | here _ _ led => exact led.1 held
    | jailed clean _ _ led => exact holds_jailMachine heeds_jail clean (led.1 held)
  have settles : ∀ call : Call σ, ∃ late, (Scope.serving heeds).holds call.machine.interpreter →
      Settled fuel (fun dispatcher => evaluateVia dispatcher fuel call.code call.ownResult)
        (evaluate fuel call.code call.ownResult) call.machine late := by
    intro call
    by_cases heldThere : (Scope.serving heeds).holds call.machine.interpreter
    · obtain ⟨late, settled⟩ := nested call.code call.ownResult call.machine heldThere
      exact ⟨late, fun _ => settled⟩
    · exact ⟨[], fun impossible => absurd impossible heldThere⟩
  obtain ⟨lates, settled⟩ := Classical.skolem.mp settles
  have settledAt := fun call member => settled call (heldAt call member)
  have cancelledAt : ∀ call ∈ calls, call.machine.world.cancellation.isSome = true →
      lates call = [] :=
    fun call member isSome => (settledAt call member).quiet ⟨(heldAt call member).2.1, isSome⟩
  refine ⟨calls.flatMap lates, ⟨?_, itinerary.ends, ?_, ?_, ?_⟩⟩
  · exact belated_flatMap lates calls (fun call member => (settledAt call member).belated)
      cancelledAt (fun call member => (settledAt call member).ends) itinerary.ordered
  · intro cancelled
    refine List.flatMap_eq_nil_iff.mpr fun call member => cancelledAt call member ?_
    cases itinerary.reached call member with
    | here _ _ led => exact led.2 cancelled.2
    | jailed _ _ _ led => exact led.2 cancelled.2
  · intro nonempty
    obtain ⟨call, member, notEmpty⟩ : ∃ call ∈ calls, lates call ≠ [] := by
      simpa [List.flatMap_eq_nil_iff] using nonempty
    exact itinerary.followed call member ((settledAt call member).ends notEmpty)
  · intro dispatcher callsThem
    refine itinerary.determined _ fun call member => (settledAt call member).same dispatcher ?_
    exact callsThem.mono fun late isLate => List.mem_flatMap.mpr ⟨call, member, isLate⟩

/-- What is still and assembled is settled with no command called late. -/
theorem Settled.of_assembled
    {action : Eval σ α}
    (assembled : Assembled (Scope.serving heeds).toRealm fun _ => action)
    {level : Nat}
    {machine : Machine σ}
    (held : (Scope.serving heeds).holds machine.interpreter) :
    Settled level (fun _ => action) action machine [] := by
  obtain ⟨calls, itinerary⟩ := assembled.exists_itinerary onward_cancelled.leading
    (onward_cancelled.through_evaluate heeds_jail 0) machine held
  exact .of_still itinerary.ends

/-- Read the words of a command and call it. -/
def readAndCall (call : List Text → Eval σ Text) (run : Run σ) (bound : Nat) (reader : Reader)
    (cursor : Cursor) : Eval σ (Text × Option Cursor) := do
  match ← words reader run bound cursor with
  | none => return ([], none)
  | some (command, after) => callRead call reader command after

/-- Before the cancellation a command is read and called. -/
theorem commandAtVia_of_not_cancelled
    (call : List Text → Eval σ Text)
    (run : Run σ)
    (bound : Nat)
    (reader : Reader)
    (cursor : Cursor)
    {machine : Machine σ}
    (notCancelled : ¬machine.Cancelled) :
    commandAtVia call run bound reader cursor machine =
      readAndCall call run bound reader cursor (marked machine cursor.offset) := by
  have notThere : ¬(marked machine cursor.offset).Cancelled := notCancelled
  rw [commandAtVia, bind_of_ok (markCommand_apply cursor.offset machine),
    bind_of_ok (cancellation_of_not_cancelled notThere)]
  rfl

/-- If the context is cancelled while words are read, their command is the last one to be called. -/
theorem readAndCall_of_interrupted
    (nested : AllSettled σ fuel)
    {bound : Nat}
    {reader : Reader}
    {cursor after : Cursor}
    {machine between : Machine σ}
    {command : List Text}
    {early : List (CommandCall σ)}
    (held : (Scope.serving heeds).holds machine.interpreter)
    (notCancelled : ¬machine.Cancelled)
    (reads : Settled fuel
      (fun dispatcher => words reader (evaluateVia dispatcher fuel) bound cursor)
      (words reader (evaluate fuel) bound cursor) machine early)
    (ran : words reader (evaluate fuel) bound cursor machine = .ok (some (command, after)) between)
    (cancelled : between.Cancelled) :
    Settled (fuel + 1)
      (fun dispatcher => readAndCall (dispatcher (evaluateVia dispatcher fuel) fuel)
        (evaluateVia dispatcher fuel) bound reader cursor)
      (readAndCall (dispatch (evaluate fuel) fuel) (evaluate fuel) bound reader cursor)
      machine (early ++ [⟨fuel, command, between⟩]) := by
  have leads := reads.leads
  rw [final_of_ok ran] at leads
  obtain ⟨late, calls⟩ :=
    (callRead_assembled fuel reader command after).exists_settled nested (leads.1 held)
  have whole : readAndCall (dispatch (evaluate fuel) fuel) (evaluate fuel) bound reader cursor
      machine = callRead (dispatch (evaluate fuel) fuel) reader command after between :=
    bind_of_ok ran
  have sameEnd : final (readAndCall (dispatch (evaluate fuel) fuel) (evaluate fuel) bound reader
      cursor) machine =
        final (callRead (dispatch (evaluate fuel) fuel) reader command after) between := by
    rw [final, final, whole]
  constructor
  · have interrupted : CommandCall.Interrupted ⟨fuel, command, between⟩ :=
      ⟨cancelled, machine, reader, bound, cursor, after, notCancelled, ran⟩
    exact reads.belated.around interrupted
  · rw [sameEnd]
    exact onward_cancelled.leading.trans leads calls.leads
  · exact fun already => absurd already notCancelled
  · rw [sameEnd]
    exact fun _ => calls.leads.2 cancelled.2
  · intro dispatcher callsThem
    have sameWords := reads.same dispatcher (callsThem.mono (List.subset_append_left early _))
    have sameNested := calls.same dispatcher (callsThem.mono (by simp [calls.quiet cancelled]))
    have called : dispatcher (evaluateVia dispatcher fuel) fuel command between =
        dispatch (evaluateVia dispatcher fuel) fuel command between :=
      callsThem _ _ _ _ fun _ => by simp
    rw [whole, ← sameNested, ← callRead_congr reader after called]
    exact bind_of_ok (sameWords.trans ran)

/-- A command whose words are read before the cancellation is called before it. -/
theorem callRead_exists_settled
    (nested : AllSettled σ fuel)
    (reader : Reader)
    (command : List Text)
    (after : Cursor)
    {machine : Machine σ}
    (held : (Scope.serving heeds).holds machine.interpreter)
    (notCancelled : ¬machine.Cancelled) :
    ∃ late, Settled (fuel + 1)
      (fun dispatcher => callRead (dispatcher (evaluateVia dispatcher fuel) fuel) reader command
        after)
      (callRead (dispatch (evaluate fuel) fuel) reader command after) machine late := by
  obtain ⟨late, calls⟩ :=
    (callRead_assembled fuel reader command after).exists_settled nested held
  refine ⟨late, { calls.mono (Nat.le_succ fuel) with same := fun dispatcher callsThem => ?_ }⟩
  have called : dispatcher (evaluateVia dispatcher fuel) fuel command machine =
      dispatch (evaluateVia dispatcher fuel) fuel command machine :=
    callsThem _ _ _ _ fun cancelled => absurd cancelled notCancelled
  rw [callRead_congr reader after called, calls.same dispatcher callsThem]

/-- Reading words and calling the command is settled, by at most this one more command. -/
theorem readAndCall_exists_settled
    (nested : AllSettled σ fuel)
    (bound : Nat)
    (reader : Reader)
    (cursor : Cursor)
    {machine : Machine σ}
    (held : (Scope.serving heeds).holds machine.interpreter)
    (notCancelled : ¬machine.Cancelled) :
    ∃ late, Settled (fuel + 1)
      (fun dispatcher => readAndCall (dispatcher (evaluateVia dispatcher fuel) fuel)
        (evaluateVia dispatcher fuel) bound reader cursor)
      (readAndCall (dispatch (evaluate fuel) fuel) (evaluate fuel) bound reader cursor)
      machine late := by
  obtain ⟨early, reads⟩ :=
    (Assembled.words reader bound cursor).exists_settled nested held
  by_cases interrupted : ∃ command after between,
      words reader (evaluate fuel) bound cursor machine = .ok (some (command, after)) between ∧
        between.Cancelled
  · obtain ⟨command, after, between, ran, cancelled⟩ := interrupted
    exact ⟨_, readAndCall_of_interrupted nested held notCancelled reads ran cancelled⟩
  · refine (reads.mono (Nat.le_succ fuel)).exists_bind held fun read between ran heldThere => ?_
    cases read with
    | none =>
        exact ⟨[], .of_still (onward_cancelled.leading.refl between)⟩
    | some read =>
        exact callRead_exists_settled nested reader read.1 read.2 heldThere fun cancelled =>
          interrupted ⟨read.1, read.2, between, ran, cancelled⟩

/-- A command is settled, whether it is reached before or after the cancellation. -/
theorem commandAtVia_exists_settled
    (nested : AllSettled σ fuel)
    (bound : Nat)
    (reader : Reader)
    (cursor : Cursor)
    {machine : Machine σ}
    (held : (Scope.serving heeds).holds machine.interpreter)
    (notCancelled : ¬machine.Cancelled) :
    ∃ late, Settled (fuel + 1)
      (fun dispatcher => commandAtVia (dispatcher (evaluateVia dispatcher fuel) fuel)
        (evaluateVia dispatcher fuel) bound reader cursor)
      (commandAtVia (dispatch (evaluate fuel) fuel) (evaluate fuel) bound reader cursor)
      machine late := by
  have marks : Serving heeds World.KeepsCancelled machine (marked machine cursor.offset) :=
    ⟨id, id⟩
  obtain ⟨late, settled⟩ := readAndCall_exists_settled nested bound reader cursor (marks.1 held)
    notCancelled
  exact ⟨late, settled.of_apply held marks
    (fun dispatcher => commandAtVia_of_not_cancelled _ _ _ _ _ notCancelled)
    (commandAtVia_of_not_cancelled _ _ _ _ _ notCancelled)⟩

/-- Commands that follow each other are settled: once one was interrupted, none is started. -/
theorem commandsVia_exists_settled
    (nested : AllSettled σ fuel)
    (reader : Reader)
    (depth bound : Nat) :
    ∀ (cursor : Cursor) (last : Text) {machine : Machine σ},
      (Scope.serving heeds).holds machine.interpreter →
      ∃ late, Settled (fuel + 1)
        (fun dispatcher => commandsVia (dispatcher (evaluateVia dispatcher fuel) fuel)
          (evaluateVia dispatcher fuel) reader depth bound cursor last)
        (commandsVia (dispatch (evaluate fuel) fuel) (evaluate fuel) reader depth bound cursor last)
        machine late := by
  induction bound with
  | zero =>
      intro cursor last machine held
      exact ⟨[], .of_still (onward_cancelled.leading.refl machine)⟩
  | succ bound inductionHypothesis =>
      intro cursor last machine held
      by_cases cancelled : machine.Cancelled
      · have assembled : Assembled (Scope.serving (σ := σ) heeds).toRealm _ :=
          .commands fuel reader depth (bound + 1) cursor last
        obtain ⟨calls, itinerary⟩ := assembled.exists_itinerary onward_cancelled.leading
          (onward_cancelled.through_evaluate heeds_jail fuel) machine held
        refine ⟨[], ⟨.nil _, ?_, fun _ => rfl, fun nonempty => absurd rfl nonempty,
          fun dispatcher _ => commandsVia_of_cancelled cancelled ..⟩⟩
        rw [commandsVia_dispatch]
        exact itinerary.ends
      · have looks : Settled (fuel + 1) (fun _ => Eval.hasError) Eval.hasError machine [] :=
          .of_still (onward_cancelled.leading.refl machine)
        simp only [commandsVia]
        refine looks.exists_bind held fun failed between looked _ => ?_
        cases looked
        split
        · exact ⟨[], .of_still (onward_cancelled.leading.refl machine)⟩
        · obtain ⟨early, reads⟩ :=
            commandAtVia_exists_settled nested depth reader cursor held cancelled
          refine reads.exists_bind held fun ran after _ heldThere => ?_
          obtain ⟨value, next⟩ := ran
          cases next with
          | none => exact ⟨[], .of_still (onward_cancelled.leading.refl after)⟩
          | some next => exact inductionHypothesis next value heldThere

/-- A script is settled by the late commands of its own. -/
theorem scriptVia_exists_settled
    (nested : AllSettled σ fuel)
    (code : Text)
    (ownResult : Bool)
    {machine : Machine σ}
    (held : (Scope.serving heeds).holds machine.interpreter) :
    ∃ late, Settled (fuel + 1)
      (fun dispatcher => scriptVia (dispatcher (evaluateVia dispatcher fuel) fuel)
        (evaluateVia dispatcher fuel) code ownResult)
      (scriptVia (dispatch (evaluate fuel) fuel) (evaluate fuel) code ownResult)
      machine late := by
  have body : ∀ outermost {start : Machine σ}, (Scope.serving heeds).holds start.interpreter →
      ∃ late, Settled (fuel + 1)
        (fun dispatcher => scriptBodyVia (dispatcher (evaluateVia dispatcher fuel) fuel)
          (evaluateVia dispatcher fuel) code ownResult outermost)
        (scriptBodyVia (dispatch (evaluate fuel) fuel) (evaluate fuel) code ownResult outermost)
        start late := by
    intro outermost start heldStart
    refine (Settled.of_assembled .guardDepth heldStart).exists_bind heldStart
      fun _ guarded _ heldGuarded => ?_
    refine (Settled.of_assembled (.prepare ownResult outermost fun _ => True.intro)
      heldGuarded).exists_bind heldGuarded fun _ prepared _ heldPrepared => ?_
    refine (Settled.of_assembled (.skipBlanks ..) heldPrepared).exists_bind heldPrepared
      fun first skipped _ heldSkipped => ?_
    obtain ⟨late, runs⟩ := commandsVia_exists_settled nested ⟨outermost, false⟩ (code.length + 1)
      (code.length + 1) first [] heldSkipped
    refine runs.exists_bind heldSkipped fun value ran _ heldRan => ?_
    refine (Settled.of_assembled .reportError heldRan).exists_bind heldRan
      fun _ reported _ heldReported => ?_
    exact ⟨[], .of_assembled (.settleValue ownResult value) heldReported⟩
  have enters : Serving heeds World.KeepsCancelled machine (entered code machine) := ⟨id, id⟩
  obtain ⟨late, settled⟩ := body machine.interpreter.active.isEmpty (enters.1 held)
  have leaves : ∀ after : Machine σ,
      Serving heeds World.KeepsCancelled after (left machine after) :=
    fun _ => ⟨id, id⟩
  exact ⟨late, (settled.ensuring fun after _ => leaves after).of_apply held enters
    (fun _ => rfl) rfl⟩

end Level

/-- Every evaluation is settled, by induction on the fuel. -/
theorem allSettled
    (fuel : Nat) :
    AllSettled σ fuel := by
  induction fuel with
  | zero =>
      exact fun _ _ machine _ => ⟨[], .of_still (onward_cancelled.leading.refl machine)⟩
  | succ fuel inductionHypothesis =>
      intro code ownResult machine held
      rw [← evaluateVia_dispatch (fuel + 1), evaluateVia, evaluateVia_dispatch fuel]
      exact scriptVia_exists_settled inductionHypothesis code ownResult held

/--
Whatever a host evaluates, there are commands whose words were being read when the context was
cancelled, one for each evaluation that was reading and the innermost first, so that no command
called after the cancellation is another one: an evaluation in which commands are called
differently after it, apart from these, ends alike.  Code that starts after the cancellation calls
no command at all.
-/
theorem late_commands_were_being_read
    (fuel : Nat)
    (code : Text)
    (machine : Machine σ)
    (free : machine.interpreter.HostFree)
    (permanent : machine.interpreter.callbacks.Permanent) :
    (∃ late : List (CommandCall σ),
      Belated fuel late ∧
      (machine.world.cancellation.isSome = true → late = []) ∧
      ∀ dispatcher, CallsUntilCancelled dispatcher late →
        machine.perform (evaluateIn (evaluateVia dispatcher fuel) .running code) =
          machine.perform (evaluateIn (evaluate fuel) .running code)) ∧
      ∀ (dispatcher : Dispatcher σ) (remaining : Nat) (further : Text) (ownResult : Bool)
        (reached : Machine σ), reached.Cancelled →
        evaluateVia dispatcher remaining further ownResult reached =
          evaluate remaining further ownResult reached := by
  constructor
  · obtain ⟨late, settled⟩ := allSettled fuel code true
      (outermostCall .running code machine).machine ⟨free, rfl, permanent⟩
    refine ⟨late, settled.belated, fun cancelled => settled.quiet ⟨rfl, cancelled⟩, ?_⟩
    intro dispatcher calls
    rw [Machine.perform, Machine.perform, evaluateIn_congr (settled.same dispatcher calls)]
  · intro dispatcher remaining further ownResult reached cancelled
    exact evaluateVia_of_cancelled cancelled ..

/-! ## A command that is called late -/

/-- A machine on which the command `exit` cancels the running context. -/
def exiting : Machine Unit where
  interpreter := .fresh {} { exit := some fun _ world => world.cancel }
  world := { host := () }

/-- A script that exits while it reads the words of a command, with another command behind. -/
def exitInWords : Text :=
  Text.ofString "print a[exit];print b"

/-- The command `exit` cancels, and takes nothing back. -/
theorem exiting_permanent :
    exiting.interpreter.callbacks.Permanent := by
  refine ⟨fun performs world _ => ?_, fun handled => nomatch handled⟩
  cases performs with
  | exit _ handled =>
      cases handled
      rfl
  | write _ handled => exact nomatch handled
  | read _ handled => exact nomatch handled
  | store _ _ handled => exact nomatch handled
  | source _ handled => exact nomatch handled
  | error _ handled => exact nomatch handled
  | getVariable _ handled => exact nomatch handled

/--
The script exits while it reads a word; it ends alike whether only that command is still called.
-/
theorem late_commands_were_being_read_exiting :
    exiting.interpreter.HostFree ∧ exiting.interpreter.callbacks.Permanent ∧
      ∃ late : List (CommandCall Unit), Belated 3 late ∧
        ∀ dispatcher, CallsUntilCancelled dispatcher late →
          exiting.perform (evaluateIn (evaluateVia dispatcher 3) .running exitInWords) =
            exiting.perform (evaluateIn (evaluate 3) .running exitInWords) := by
  have free : exiting.interpreter.HostFree := Interpreter.HostFree.fresh _ _
  obtain ⟨⟨late, belated, -, same⟩, -⟩ :=
    late_commands_were_being_read 3 exitInWords exiting free exiting_permanent
  exact ⟨free, exiting_permanent, late, belated, same⟩

/-- A dispatcher that calls no command after the cancellation. -/
def heedful : Dispatcher σ :=
  fun run rounds command machine =>
    if machine.Cancelled then .ok [] machine else dispatch run rounds command machine

/-- What a script has written when it ends. -/
def outputVia (dispatcher : Dispatcher Unit) (code : Text) : Text :=
  (exiting.perform (evaluateIn (evaluateVia dispatcher 3) .running code)).2.world.output

/-- A command whose words exit is called, and writes, after the cancellation. -/
theorem exit_in_words_prints :
    CallsUntilCancelled (heedful (σ := Unit)) [] ∧
      outputVia heedful exitInWords = [] ∧
      outputVia dispatch exitInWords = Text.ofString "a\n" := by
  refine ⟨fun run rounds command machine noneLate => if_neg fun cancelled => ?_, ?_, ?_⟩
  · exact absurd (noneLate cancelled) List.not_mem_nil
  · decide +kernel
  · decide +kernel

end Eval

end LittleScript
