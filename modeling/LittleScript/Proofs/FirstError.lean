import LittleScript.Proofs.Dispatching
import LittleScript.Proofs.Trails

namespace LittleScript.Eval

/-!
# The first error wins

Within an evaluation that a host starts, an error that has been raised stays pending until the
innermost `try` that is running its first argument drops it, or else until the evaluation returns
it; and while it is pending no command is called.
-/

variable {σ α β : Type}

/-! ## The course of a script -/

/-- What a script does once it is within the limit and its interpreter is ready for its commands. -/
def performText
    (run : Run σ)
    (rounds : Nat)
    (code : Text)
    (ownResult outermost : Bool) :
    Eval σ Text := do
  let value ← runText run rounds ⟨outermost, false⟩ code
  reportError
  settleValue ownResult value

theorem scriptBody_of_within
    (run : Run σ)
    (rounds : Nat)
    (code : Text)
    (ownResult outermost : Bool)
    {machine : Machine σ}
    (within : machine.interpreter.depth ≤ machine.interpreter.limits.evaluations) :
    scriptBody run rounds code ownResult outermost machine =
      performText run rounds code ownResult outermost (prepared ownResult outermost machine) := by
  have flattened :
      scriptBody run rounds code ownResult outermost =
        guardDepth >>= fun _ => prepare ownResult outermost >>= fun _ =>
          performText run rounds code ownResult outermost := by
    rw [scriptBody_eq]
    simp only [runCommands, performText, bind_assoc, pure_bind]
  rw [flattened, bind_of_ok (guardDepth_of_within within),
    bind_of_ok (prepare_apply ownResult outermost machine)]

/-- Apart from its start a script has trails. -/
theorem Trailing.performText
    {ready : List Nat → Prop}
    {run : Run σ}
    {calls : CallTrails σ}
    (trailing : Trailing ready run calls)
    (rounds : Nat)
    (code : Text)
    (ownResult outermost : Bool) :
    HasTrails ready run calls fun run =>
      Eval.performText run rounds code ownResult outermost := by
  refine .bind ?_ fun value => .bind (trailing.assembled .reportError) fun _ =>
    trailing.assembled (.settleValue ownResult value)
  exact .bind (trailing.assembled (.skipBlanks ..)) fun _ => trailing.commands ..

/--
The trails of running code.  Code that is stopped before its commands has none to pass; an
evaluation on an interpreter where none is active drops what an earlier one left, and its trail
starts behind that.
-/
def Course : Nat → CallTrails σ
  | 0, _, _, _, trail => trail = []
  | fuel + 1, code, ownResult, machine, trail =>
      if machine.interpreter.depth < machine.interpreter.limits.evaluations then
        Trails (evaluate fuel)
          (fun code ownResult machine trail =>
            machine.interpreter.active ≠ [] ∧ Course fuel code ownResult machine trail)
          (fun run =>
            performText run fuel code ownResult machine.interpreter.active.isEmpty)
          (prepared ownResult machine.interpreter.active.isEmpty (entered code machine)) trail
      else trail = []

/-- What is pending when the commands of code start. -/
def opening (machine : Machine σ) : Option ScriptError :=
  if machine.interpreter.active.isEmpty then none else machine.interpreter.error

theorem prepared_error
    (code : Text)
    (ownResult : Bool)
    (machine : Machine σ) :
    (prepared ownResult machine.interpreter.active.isEmpty
        (entered code machine)).interpreter.error = opening machine := by
  rw [opening, prepared]
  cases machine.interpreter.active.isEmpty <;> cases ownResult <;> rfl

theorem prepared_active
    (code : Text)
    (ownResult outermost : Bool)
    (machine : Machine σ) :
    (prepared ownResult outermost (entered code machine)).interpreter.active ≠ [] := by
  rw [prepared]
  cases outermost <;> cases ownResult <;> simp [entered, Interpreter.updateCurrent,
    Interpreter.updateFrame]

theorem prepared_hostFree
    (code : Text)
    (ownResult outermost : Bool)
    {machine : Machine σ}
    (free : machine.interpreter.HostFree) :
    (prepared ownResult outermost (entered code machine)).interpreter.HostFree := by
  rw [prepared]
  cases outermost <;> cases ownResult <;> exact free

/-- Every run of code has a course. -/
theorem exists_course
    (fuel : Nat) :
    ∀ (code : Text) (ownResult : Bool) (machine : Machine σ), machine.interpreter.HostFree →
      ∃ trail, Course fuel code ownResult machine trail := by
  induction fuel with
  | zero =>
      exact fun _ _ _ _ => ⟨[], rfl⟩
  | succ fuel inductionHypothesis =>
      intro code ownResult machine free
      simp only [Course]
      split
      · have trailing : Trailing (· ≠ []) (evaluate (σ := σ) fuel)
            fun code ownResult machine trail =>
              machine.interpreter.active ≠ [] ∧ Course fuel code ownResult machine trail := by
          refine ⟨fun _ _ _ => by simp, fun code ownResult => ?_, fun code ownResult machine => ?_⟩
          · refine (control_lasting.evaluate fuel code ownResult).mono ?_
            intro before after same held
            have sameActive : after.active = before.active := congrArg Control.active same
            rwa [sameActive]
          · intro free busy
            obtain ⟨trail, course⟩ := inductionHypothesis code ownResult machine free
            exact ⟨trail, busy, course⟩
        exact (trailing.performText fuel code ownResult _).trail _
          (prepared_hostFree code ownResult _ free) (prepared_active code ownResult _ machine)
      · exact ⟨[], rfl⟩

/-- An evaluation beyond the limit changes nothing in its interpreter. -/
theorem guardDepth_of_exceeding
    {machine : Machine σ}
    (beyond : machine.interpreter.limits.evaluations < machine.interpreter.depth) :
    ∃ world, guardDepth machine =
      .error (.tooDeep ⟨machine.interpreter.limits.evaluations, machine.interpreter.depth⟩)
        { machine with world } := by
  rw [guardDepth, interpreter_bind_apply, if_pos beyond]
  exact ⟨_, rfl⟩

/-- Code that is stopped at once leaves pending what was. -/
theorem Steady.of_turnedAway
    {action : Eval σ α}
    {machine after : Machine σ}
    {stop : Stop}
    (ran : action machine = .error stop after)
    (same : after.interpreter.error = machine.interpreter.error) :
    Steady (opening machine) [] action machine := by
  rw [opening]
  split
  · exact .of_stopped ran
  · refine .of_same ?_
    rw [final_of_error ran, same]

/-- Along its course a run of code keeps its first error. -/
theorem Course.steady
    {fuel : Nat} :
    ∀ {code : Text} {ownResult : Bool} {machine : Machine σ} {trail : Trail},
      Course fuel code ownResult machine trail →
      Steady (opening machine) trail (evaluate fuel code ownResult) machine := by
  induction fuel with
  | zero =>
      intro code ownResult machine trail course
      cases course
      exact .of_turnedAway rfl rfl
  | succ fuel inductionHypothesis =>
      intro code ownResult machine trail course
      rw [Course] at course
      have runs := script_apply (evaluate fuel) fuel code ownResult machine
      split at course
      case isTrue within =>
        have steady := course.steady (fun ⟨busy, course⟩ => by
          have steady := inductionHypothesis course
          rwa [opening, if_neg (by simpa using busy)] at steady)
        rw [prepared_error] at steady
        have isWithin : (entered code machine).interpreter.depth ≤
            (entered code machine).interpreter.limits.evaluations := within
        have body := scriptBody_of_within (evaluate fuel) fuel code ownResult
          machine.interpreter.active.isEmpty isWithin
        exact (steady.of_apply_eq body).of_ensuring runs fun _ => rfl
      case isFalse beyond =>
        cases course
        have isBeyond : (entered code machine).interpreter.limits.evaluations <
            (entered code machine).interpreter.depth := Nat.lt_succ_of_le (Nat.not_lt.mp beyond)
        obtain ⟨world, refused⟩ := guardDepth_of_exceeding isBeyond
        have body : scriptBody (evaluate fuel) fuel code ownResult
            machine.interpreter.active.isEmpty (entered code machine) = _ :=
          bind_of_error refused
        rw [ensuring, body] at runs
        exact .of_turnedAway runs rfl

/-! ## Nothing crashes -/

/-- An action that does not crash where there are no host commands. -/
def Uncrashed (action : Eval σ α) : Prop :=
  ∀ machine after : Machine σ, machine.interpreter.HostFree → action machine ≠ .error .crash after

namespace Uncrashed

theorem pure
    (value : α) :
    Uncrashed (Pure.pure value : Eval σ α) :=
  fun _ _ _ crashed => nomatch crashed

theorem hasError :
    Uncrashed (Eval.hasError (σ := σ)) :=
  fun _ _ _ crashed => nomatch crashed

theorem change
    (update : Interpreter σ → Interpreter σ) :
    Uncrashed (Eval.change update) :=
  fun _ _ _ crashed => nomatch crashed

theorem bind
    {action : Eval σ α}
    {next : α → Eval σ β}
    (first : Uncrashed action)
    (free : Upholds (fun _ _ => True) action)
    (second : ∀ value, Uncrashed (next value)) :
    Uncrashed (action >>= next) := by
  intro machine after hostFree crashed
  have kept := (free machine hostFree).1
  cases ran : action machine with
  | error stop stopped =>
      rw [bind_of_error ran] at crashed
      cases crashed
      exact first machine after hostFree ran
  | ok value between =>
      rw [final_of_ok ran] at kept
      rw [bind_of_ok ran] at crashed
      exact second value between after kept crashed

theorem ensuring_ne
    {action : Eval σ α}
    (uncrashed : Uncrashed action)
    (cleanup : Machine σ → Machine σ)
    {machine : Machine σ}
    (hostFree : machine.interpreter.HostFree)
    (after : Machine σ) :
    Eval.ensuring action cleanup machine ≠ .error .crash after := by
  intro crashed
  rw [Eval.ensuring] at crashed
  cases ran : action machine with
  | ok value ended =>
      rw [ran] at crashed
      cases crashed
  | error stop stopped =>
      rw [ran] at crashed
      cases crashed
      exact uncrashed machine stopped hostFree ran

/-- An evaluation for a host crashes only if its run of the code does. -/
theorem evaluateIn
    {run : Run σ}
    (uncrashed : ∀ code ownResult, Uncrashed (run code ownResult))
    (free : ∀ code ownResult, Upholds (fun _ _ => True) (run code ownResult))
    (context : Context)
    (code : Text) :
    Uncrashed (Eval.evaluateIn run context code) := by
  have reporting : Uncrashed (runReporting run code) :=
    (uncrashed code true).bind (free code true) fun _ _ _ _ crashed => nomatch crashed
  intro machine after hostFree crashed
  have inner := fun after => reporting.ensuring_ne (restored machine)
    (show (outermostCall context code machine).machine.interpreter.HostFree from hostFree) after
  rw [Eval.evaluateIn] at crashed
  simp only [inspect_bind_apply, change_bind_apply] at crashed
  split at crashed
  · rw [catchTooDeep] at crashed
    split at crashed
    · cases crashed
    · exact inner after crashed
  · exact inner after crashed

end Uncrashed

theorem Composed.uncrashed
    {run : Run σ}
    (free : ∀ code ownResult, Upholds (fun _ _ => True) (run code ownResult))
    (runUncrashed : ∀ code ownResult, Uncrashed (run code ownResult))
    {allowed : Builtin → Prop}
    {drops : Prop}
    {action : Run σ → Eval σ α}
    (composed : Composed (.hostFree allowed drops) action) :
    Uncrashed (action run) := by
  induction composed with
  | pure value =>
      exact .pure value
  | bind first _ firstUncrashed nextUncrashed =>
      exact firstUncrashed.bind (first.upholds Lasting.trivial free) nextUncrashed
  | consult view _ _ nextUncrashed =>
      exact fun machine after hostFree =>
        nextUncrashed machine.interpreter hostFree machine after hostFree
  | step update =>
      exact .change _
  | record offset reason =>
      intro machine after _ crashed
      obtain ⟨error, world, raised⟩ := raiseAt_apply offset reason machine
      exact nomatch raised.symm.trans crashed
  | drop _ =>
      exact .change _
  | ask answer =>
      exact fun _ _ _ crashed => nomatch crashed
  | observe view =>
      exact fun _ _ _ crashed => nomatch crashed
  | halt stop noCrash _ =>
      intro machine after _ crashed
      cases crashed
      exact noCrash rfl
  | nested code ownResult =>
      exact runUncrashed code ownResult
  | inFrame frame down _ _ _ inside =>
      exact fun machine after hostFree => inside.ensuring_ne _
        (show { machine.interpreter with current := frame, down }.HostFree from hostFree) after
  | inNewFrame frame _ _ inside =>
      exact fun machine after hostFree => inside.ensuring_ne _
        (show { (machine.interpreter.addFrame frame).2 with
          current := machine.interpreter.frames.size }.HostFree from hostFree) after
  | runWatch frame code _ =>
      intro machine after hostFree
      simp only [Eval.runWatch]
      split
      · have runs : Uncrashed (do let _ ← run code true) :=
          (runUncrashed code true).bind (free code true) fun _ => .pure ()
        exact runs.ensuring_ne _
          (show { machine.interpreter with current := frame }.HostFree from hostFree) after
      · exact Uncrashed.pure () machine after hostFree
  | inCatcher _ inside =>
      exact fun machine after hostFree => inside.ensuring_ne _
        (show { machine.interpreter with
          catchers := machine.interpreter.catchers + 1 }.HostFree from hostFree) after
  | catching code _ _ _ _ refusedUncrashed passedUncrashed caughtUncrashed =>
      refine .bind .hasError (.of_same Lasting.trivial fun _ => rfl) fun pending => ?_
      split
      · exact refusedUncrashed
      · refine .bind (runUncrashed code false) (free code false) fun value => ?_
        refine .bind .hasError (.of_same Lasting.trivial fun _ => rfl) fun failed => ?_
        split
        · refine .bind (.change _) (.of_error Lasting.trivial fun _ => ⟨none, rfl⟩) ?_
          exact fun _ => caughtUncrashed
        · exact passedUncrashed value
  | @jail parent clean context code _ held =>
      have evaluated := Uncrashed.evaluateIn runUncrashed free context code
      exact fun machine after _ => evaluated.ensuring_ne _
        (show (jailInterpreter parent clean).HostFree from held.jail clean) after

/-- No evaluation crashes where there are no host commands. -/
theorem evaluate_uncrashed
    (fuel : Nat) :
    ∀ (code : Text) (ownResult : Bool), Uncrashed (evaluate (σ := σ) fuel code ownResult) := by
  induction fuel with
  | zero =>
      exact fun _ _ _ _ _ crashed => nomatch crashed
  | succ fuel inductionHypothesis =>
      intro code ownResult machine after hostFree
      have body : Composed (Scope.whole (σ := σ) True).toRealm _ :=
        .scriptBody fuel code ownResult machine.interpreter.active.isEmpty fun _ => True.intro
      have uncrashed := body.uncrashed (LastingScript.trivial.evaluate fuel) inductionHypothesis
      rw [evaluate, script_apply]
      exact uncrashed.ensuring_ne _
        (show (entered code machine).interpreter.HostFree from hostFree) after

/-! ## Evaluations of a host -/

/-- From an interpreter without host commands no nested call is made on one with host commands. -/
theorem Nested.hostFree
    {fuel remaining : Nat}
    {call inner : Call σ}
    (nested : Nested fuel call remaining inner)
    (free : call.machine.interpreter.HostFree) :
    inner.machine.interpreter.HostFree := by
  induction nested with
  | here fuel call =>
      exact free
  | deeper makes _ _ inductionHypothesis =>
      exact inductionHypothesis (makes.hostFree free)

/-- An error on the trail of a steady action is pending at its end. -/
theorem Steady.final_of_mem
    {start : Option ScriptError}
    {trail : Trail}
    {action : Eval σ α}
    {machine : Machine σ}
    (steady : Steady start trail action machine)
    {error : ScriptError}
    (passed : some error ∈ trail) :
    (final action machine).interpreter.error = some error := by
  have kept := (List.pairwise_cons.mp steady.kept).2
  rw [List.pairwise_append] at kept
  exact kept.2.2 _ passed _ (List.mem_singleton.mpr rfl) error rfl

section Outermost

variable {fuel : Nat} {context : Context} {code : Text} {machine : Machine σ} {trail : Trail}
  {error : ScriptError}

/-- An evaluation returns the error on its course, unless it ends fatally or exhausted. -/
theorem Course.returns_error
    (course : Course fuel code true (outermostCall context code machine).machine trail)
    (free : machine.interpreter.HostFree)
    (idle : machine.interpreter.active = [])
    (passed : some error ∈ trail) :
    (∃ value, (machine.perform (evaluateIn (evaluate fuel) context code)).1 =
        .finished ⟨value, some (.script error)⟩) ∨
      (∃ fatal, (machine.perform (evaluateIn (evaluate fuel) context code)).1 =
        .finished ⟨[], some (.fatal fatal)⟩) ∨
      (machine.perform (evaluateIn (evaluate fuel) context code)).1 = .stopped .exhausted := by
  have pending := course.steady.final_of_mem passed
  rw [perform_evaluateIn _ context code idle]
  cases ran : evaluate fuel code true (outermostCall context code machine).machine with
  | ok value after =>
      rw [final_of_ok ran] at pending
      exact .inl ⟨value, by simp [pending]⟩
  | error stop after =>
      cases stop with
      | tooDeep fatal =>
          exact .inr (.inl ⟨fatal, rfl⟩)
      | crash =>
          exact absurd ran (evaluate_uncrashed fuel code true _ after free)
      | exhausted =>
          exact .inr (.inr rfl)

/-- A script error that an evaluation returns is on its course. -/
theorem Course.mem_of_returned
    (course : Course fuel code true (outermostCall context code machine).machine trail)
    (idle : machine.interpreter.active = [])
    {value : Text}
    (finished : (machine.perform (evaluateIn (evaluate fuel) context code)).1 =
      .finished ⟨value, some (.script error)⟩) :
    some error ∈ trail := by
  have starts : opening (outermostCall context code machine).machine = none := by
    simp [opening, outermostCall, idle]
  rw [perform_evaluateIn _ context code idle] at finished
  cases ran : evaluate fuel code true (outermostCall context code machine).machine with
  | ok result after =>
      rw [ran] at finished
      cases pending : after.interpreter.error with
      | none =>
          simp [pending] at finished
      | some raised =>
          simp only [pending, Option.map_some, Outcome.finished.injEq, Evaluated.mk.injEq,
            Option.some.injEq, Failure.script.injEq] at finished
          have known := course.steady.known ran
          rw [starts, pending, finished.2] at known
          simpa using known
  | error stop after =>
      rw [ran] at finished
      cases stop with
      | tooDeep fatal =>
          simp at finished
      | crash =>
          cases finished
      | exhausted =>
          cases finished

end Outermost

/-- Nothing stops an evaluation of a host but that its bound is used up. -/
theorem stopped_exhausted
    (fuel : Nat)
    (context : Context)
    (code : Text)
    {machine : Machine σ}
    (free : machine.interpreter.HostFree)
    (idle : machine.interpreter.active = [])
    {stop : Stop}
    (stopped : (machine.perform (evaluateIn (evaluate fuel) context code)).1 = .stopped stop) :
    stop = .exhausted := by
  rw [perform_evaluateIn _ context code idle] at stopped
  cases ran : evaluate fuel code true (outermostCall context code machine).machine with
  | ok value after =>
      rw [ran] at stopped
      cases stopped
  | error reason after =>
      rw [ran] at stopped
      cases reason with
      | tooDeep error =>
          cases stopped
      | crash =>
          exact absurd ran (evaluate_uncrashed fuel code true _ after free)
      | exhausted =>
          cases stopped
          rfl

/--
Within an evaluation that a host starts on an idle interpreter without host commands, the first
error wins.  Each nested run of code, and the outermost one, has a course, on which nothing but
`try` drops an error, and that only behind the run of its first argument; along each of its courses
an error that is pending stays pending until the run ends.  The evaluation returns the error on its
course, unless it ends fatally or its bound is used up, and it returns no other error.  What
commands would do while an error is pending makes no difference: none is called.
-/
theorem first_error_wins
    (fuel : Nat)
    (context : Context)
    (code : Text)
    (machine : Machine σ)
    (free : machine.interpreter.HostFree)
    (idle : machine.interpreter.active = []) :
    (∀ (remaining : Nat) (call : Call σ),
        Nested fuel (outermostCall context code machine) remaining call →
        (∃ trail, Course remaining call.code call.ownResult call.machine trail) ∧
          ∀ trail, Course remaining call.code call.ownResult call.machine trail →
            Steady (opening call.machine) trail
              (evaluate remaining call.code call.ownResult) call.machine) ∧
      (∀ trail error, Course fuel code true (outermostCall context code machine).machine trail →
        (some error ∈ trail →
          (∃ value, (machine.perform (evaluateIn (evaluate fuel) context code)).1 =
              .finished ⟨value, some (.script error)⟩) ∨
            (∃ fatal, (machine.perform (evaluateIn (evaluate fuel) context code)).1 =
              .finished ⟨[], some (.fatal fatal)⟩) ∨
            (machine.perform (evaluateIn (evaluate fuel) context code)).1 =
              .stopped .exhausted) ∧
        ∀ value, (machine.perform (evaluateIn (evaluate fuel) context code)).1 =
            .finished ⟨value, some (.script error)⟩ →
          some error ∈ trail) ∧
      ∀ dispatcher : Dispatcher σ,
        (∀ run rounds, AgreeUnfailed (dispatcher run rounds) (dispatch run rounds)) →
        machine.perform (evaluateIn (evaluateVia dispatcher fuel) context code) =
          machine.perform (evaluateIn (evaluate fuel) context code) := by
  refine ⟨?_, ?_, ?_⟩
  · intro remaining call nested
    exact ⟨exists_course remaining _ _ _ (nested.hostFree free), fun _ course => course.steady⟩
  · intro trail error course
    exact ⟨course.returns_error free idle, fun _ => course.mem_of_returned idle⟩
  · intro dispatcher agree
    rw [evaluateVia_of_agree agree]

/-- Three unknown commands, the first of them where `try` drops its error. -/
def threeUnknown : Text :=
  Text.ofString "try \x7beval x\x7d;eval y;z"

/-- The reason of the script error with which an evaluation ended. -/
def scriptReason? : Outcome Evaluated → Option Reason
  | .finished ⟨_, some (.script error)⟩ => some error.reason
  | _ => none

/-- A new machine with the usual limits. -/
def untouched : Machine Unit where
  interpreter := .fresh {} {}
  world := { host := () }

/-- The error that `try` drops is not returned, nor is the one behind the first that is left. -/
theorem first_error_wins_unknown :
    ∃ trail error value,
      Course 3 threeUnknown true (outermostCall .background threeUnknown untouched).machine trail ∧
        some error ∈ trail ∧ error.reason = .unknownCommand [0x79] ∧
        (untouched.perform (evaluateIn (evaluate 3) .background threeUnknown)).1 =
          .finished ⟨value, some (.script error)⟩ := by
  obtain ⟨courses, returns, -⟩ := first_error_wins 3 .background threeUnknown untouched
    (Interpreter.HostFree.fresh _ _) rfl
  obtain ⟨⟨trail, course⟩, -⟩ := courses 3 _ (.here 3 _)
  have ends :
      scriptReason? (untouched.perform (evaluateIn (evaluate 3) .background threeUnknown)).1 =
        some (.unknownCommand [0x79]) := by
    decide +kernel
  cases outcome : (untouched.perform (evaluateIn (evaluate 3) .background threeUnknown)).1 with
  | stopped stop =>
      rw [outcome] at ends
      cases ends
  | finished evaluated =>
      obtain ⟨value, failure⟩ := evaluated
      rw [outcome] at ends
      cases failure with
      | none =>
          cases ends
      | some failure =>
          cases failure with
          | fatal error =>
              cases ends
          | script error =>
              have passed := (returns trail error course).2 value outcome
              exact ⟨trail, error, value, course, passed, Option.some.inj ends, rfl⟩

end LittleScript.Eval
