import LittleScript.Proofs.FirstError
import LittleScript.Proofs.UniformEvaluation

namespace LittleScript

/-!
# Errors of nested code

While an evaluation is running, every further one comes back to where it was, in the same text, and
keeps an error that is pending.  An error that it leaves points at the command which the outermost
evaluation is running; so does one that a command leaves.
-/

variable {σ α : Type}

/-- The terms on which an evaluation is compared with itself. -/
def Terms.itself : Terms where
  barrier := none
  sameLog := true
  hosts := false
  escapes := by simp

namespace Eval

/-! ## The text of the outermost evaluation -/

/-- While an evaluation is running, the text of the outermost one stays. -/
def KeepsText (before after : Interpreter σ) : Prop :=
  before.active ≠ [] → after.source = before.source ∧ after.active ≠ []

theorem keepsText_lasting :
    Lasting (σ := σ) KeepsText where
  refl _ busy := ⟨rfl, busy⟩
  trans _ _ _ first second busy :=
    ⟨(second (first busy).2).1.trans (first busy).1, (second (first busy).2).2⟩
  step := by
    intro reach update step interpreter busy
    cases step with
    | rename old new =>
        obtain ⟨functions, commands, renamed⟩ := interpreter.rename_getD_eq old new
        simp only [renamed, true_and]
        exact busy
    | mark offset =>
        exact ⟨rfl, List.cons_ne_nil _ _⟩
    | _ =>
        exact ⟨rfl, busy⟩
  error _ _ busy := ⟨rfl, busy⟩
  inFrame _ _ _ _ inside busy := inside busy
  inNewFrame _ _ _ inside busy := inside busy
  runWatch _ _ _ inside busy := inside busy
  inCatcher _ _ inside busy := inside busy

/-- Nested code keeps the text of the outermost evaluation. -/
theorem evaluate_keepsText
    (fuel : Nat) :
    ∀ (code : Text) (ownResult : Bool),
      Upholds (σ := σ) KeepsText (evaluate fuel code ownResult) := by
  induction fuel with
  | zero =>
      exact fun _ _ machine free => ⟨free, fun busy => ⟨rfl, busy⟩⟩
  | succ fuel inductionHypothesis =>
      intro code ownResult machine free
      have body : Composed (Scope.whole (σ := σ) True).toRealm _ :=
        .scriptBody fuel code ownResult machine.interpreter.active.isEmpty fun _ => True.intro
      have inside := body.upholds keepsText_lasting inductionHypothesis (entered code machine) free
      rw [evaluate, final_script]
      refine ⟨inside.1, fun busy => ⟨?_, busy⟩⟩
      have notEmpty : machine.interpreter.active.isEmpty = false := by
        simpa using busy
      have sameText : (entered code machine).interpreter.source = machine.interpreter.source := by
        simp only [entered, notEmpty, Bool.false_eq_true, if_false]
      exact (inside.2 (List.cons_ne_nil _ _)).1.trans sameText

/-- Nested code keeps an error that is pending. -/
theorem evaluate_keepsError
    (fuel : Nat)
    (code : Text)
    (ownResult : Bool)
    {machine : Machine σ}
    (free : machine.interpreter.HostFree)
    (busy : machine.interpreter.active ≠ [])
    {error : ScriptError}
    (pending : machine.interpreter.error = some error) :
    (final (evaluate fuel code ownResult) machine).interpreter.error = some error := by
  obtain ⟨trail, course⟩ := exists_course fuel code ownResult machine free
  have starts : opening machine = some error := by
    rw [opening, if_neg (by simpa using busy), pending]
  have kept := (List.pairwise_cons.mp course.steady.kept).1
  exact kept _ (List.mem_append_right trail (List.mem_singleton.mpr rfl)) error starts

/-! ## Where errors point -/

/-- What is alike to itself comes back above where it was; its error is at the outermost command. -/
theorem Alike.places
    {shallow deep : Eval σ α}
    {machine : Machine σ}
    (alike : Alike .itself (.single machine.interpreter.active) shallow deep)
    (free : machine.interpreter.HostFree)
    (noError : machine.interpreter.error = none) :
    ∃ above, (final deep machine).interpreter.active = above ++ machine.interpreter.active ∧
      ∀ start, machine.interpreter.active.getLast? = some start →
        ∀ error, (final deep machine).interpreter.error = some error →
          ∃ reason, error = .locate reason (final deep machine).interpreter.source start := by
  have starts : Matches .itself (.single machine.interpreter.active) machine machine :=
    .self rfl free noError
  have matching : ∀ first second : Machine σ,
      Matches .itself (.single machine.interpreter.active) first second →
      ∃ above, second.interpreter.active = above ++ machine.interpreter.active ∧
        ∀ start, machine.interpreter.active.getLast? = some start →
          ∀ error, second.interpreter.error = some error →
            ∃ reason, error = .locate reason second.interpreter.source start := by
    rintro first _ ⟨above, down, records, active, nested, sameDown, sameLog, fit, kept⟩
    exact ⟨above, rfl, kept.placed⟩
  have ends := alike machine machine starts
  have level : ¬ (Footing.single machine.interpreter.active).shallow.length <
      (Footing.single machine.interpreter.active).deep.length := Nat.lt_irrefl _
  cases ranShallow : shallow machine <;> cases ran : deep machine <;>
    rw [ranShallow, ran] at ends <;> cases ends
  case ok.ok.ok ended =>
    rw [final_of_ok ran]
    exact matching _ _ ended
  case error.error.error ended =>
    rw [final_of_error ran]
    exact matching _ _ ended
  case ok.error.tooDeep deeper => exact absurd deeper level
  case error.error.tooDeep deeper => exact absurd deeper level
  case error.ok.barred isBarrier => cases isBarrier
  case error.error.barred isBarrier => cases isBarrier

/-- An error that nested code leaves points at the command of the outermost evaluation. -/
theorem evaluate_places
    (fuel : Nat)
    (code : Text)
    (ownResult : Bool)
    {machine : Machine σ}
    (free : machine.interpreter.HostFree)
    (busy : machine.interpreter.active ≠ [])
    (noError : machine.interpreter.error = none)
    {error : ScriptError}
    (failed : (final (evaluate fuel code ownResult) machine).interpreter.error = some error) :
    ∃ reason, error =
      .locate reason machine.interpreter.source (machine.interpreter.active.getLast busy) := by
  have alike := runsAlike (σ := σ) .itself fuel (.single machine.interpreter.active) code ownResult
  obtain ⟨above, -, placed⟩ := alike.places free noError
  obtain ⟨reason, isPlaced⟩ := placed _ (List.getLast?_eq_some_getLast busy) error failed
  have sameText := ((evaluate_keepsText fuel code ownResult machine free).2 busy).1
  exact ⟨reason, sameText ▸ isPlaced⟩

/--
A command is called where the outermost evaluation is, and comes back to it.  Only the innermost
evaluation marks its command.
-/
theorem dispatch_comesBack
    (fuel : Nat)
    (command : List Text)
    {machine : Machine σ}
    (free : machine.interpreter.HostFree)
    (busy : machine.interpreter.active ≠ [])
    (noError : machine.interpreter.error = none) :
    let after := final (dispatch (evaluate fuel) fuel command) machine
    after.interpreter.HostFree ∧ after.interpreter.control = machine.interpreter.control ∧
      after.interpreter.source = machine.interpreter.source ∧
      ∀ error, after.interpreter.error = some error →
        ∃ reason, error =
          .locate reason machine.interpreter.source (machine.interpreter.active.getLast busy) := by
  have alike : Alike (σ := σ) .itself (.single machine.interpreter.active)
      (dispatchVia Terms.itself.descent (evaluateVia (dispatchVia Terms.itself.descent) fuel)
        fuel command) (dispatch (evaluate fuel) fuel command) := by
    rw [← dispatchVia_downEvaluate]
    exact .dispatchVia (fun _ => rfl) (runsAlike .itself fuel) (fun hosts => nomatch hosts) fuel command
  have composed : Composed (Scope.whole (σ := σ) False).toRealm fun run => dispatch run fuel command :=
    Assembled.composed (.dispatch fuel command)
  obtain ⟨above, isAbove, placed⟩ := alike.places free noError
  obtain ⟨freeAfter, text⟩ :=
    composed.upholds keepsText_lasting (evaluate_keepsText fuel) machine free
  have sameText := (text busy).1
  have enclosed := (composed.upholds control_lasting.toLasting (fun code ownResult =>
    (control_lasting.evaluate fuel code ownResult).mono control_lasting.within) machine free).2
  have noneAbove : above = [] := by
    have sameTail := congrArg (fun control => control.active.length) enclosed
    have notEmpty := List.length_pos_iff.mpr busy
    simp only [Interpreter.enclosing, isAbove, List.length_tail, List.length_append] at sameTail
    exact List.length_eq_zero_iff.mp (by omega)
  rw [noneAbove, List.nil_append] at isAbove
  refine ⟨freeAfter, ?_, sameText, fun error failed => ?_⟩
  · simp only [Interpreter.enclosing, Interpreter.control, Control.mk.injEq] at enclosed ⊢
    exact ⟨enclosed.1, enclosed.2.1, isAbove, enclosed.2.2.2⟩
  · obtain ⟨reason, isPlaced⟩ := placed _ (List.getLast?_eq_some_getLast busy) error failed
    exact ⟨reason, sameText ▸ isPlaced⟩

end Eval

end LittleScript
