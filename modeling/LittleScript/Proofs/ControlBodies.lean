import LittleScript.Proofs.Commands

namespace LittleScript.Eval

/-!
# Bodies of control commands

Where a control command runs its bodies: after a condition, in a round of a loop, for an element of
a list, or as the handler of an error.  A body that leaves its frame without an error is the last
thing that the command runs: every loop notices at its next check, and the command ends on the very
machine that the body left.
-/

variable {σ : Type}

/-- No error is pending, and the current frame is not being left. -/
structure Continuing (machine : Machine σ) : Prop where
  unfailed : machine.interpreter.error = none
  staying : machine.interpreter.currentFrame.stopping = false

/-- The current frame is being left, without an error. -/
structure Leaving (machine : Machine σ) : Prop where
  unfailed : machine.interpreter.error = none
  stopping : machine.interpreter.currentFrame.stopping = true

@[simp] theorem isInterrupted_bind_apply
    {β : Type}
    (next : Bool → Eval σ β)
    (machine : Machine σ) :
    (Command.isInterrupted >>= next) machine =
      next (machine.interpreter.error.isSome || machine.interpreter.currentFrame.stopping)
        machine := by
  rw [Command.isInterrupted, bind_assoc, hasError_bind_apply, bind_assoc, isStopping_bind_apply]
  rfl

theorem isInterrupted_of_continuing
    {β : Type}
    {machine : Machine σ}
    (continuing : Continuing machine)
    (next : Bool → Eval σ β) :
    (Command.isInterrupted >>= next) machine = next false machine := by
  rw [isInterrupted_bind_apply, continuing.unfailed, continuing.staying]
  rfl

theorem isInterrupted_of_leaving
    {β : Type}
    {machine : Machine σ}
    (leaving : Leaving machine)
    (next : Bool → Eval σ β) :
    (Command.isInterrupted >>= next) machine = next true machine := by
  rw [isInterrupted_bind_apply, leaving.stopping, Bool.or_true]

/-! ## Loops -/

section Loops

variable {run : Run σ}

/-- The rounds of a loop with a condition up to a run of its body; one more round is possible. -/
inductive WhileReaches (run : Run σ) (test body : Text) (negated : Bool) :
    Nat → Machine σ → Machine σ → Prop where
  | body {rounds : Nat} {machine entry : Machine σ} :
      Continuing machine →
      Command.condition run test negated machine = .ok (some true) entry →
      WhileReaches run test body negated (rounds + 2) machine entry
  | round {rounds : Nat} {machine between ended entry : Machine σ} {value : Text} :
      Continuing machine →
      Command.condition run test negated machine = .ok (some true) between →
      run body false between = .ok value ended →
      WhileReaches run test body negated rounds ended entry →
      WhileReaches run test body negated (rounds + 1) machine entry

/-- A loop with a condition does nothing in a frame that is being left. -/
theorem whileRounds_of_leaving
    (test body : Text)
    (negated : Bool)
    (rounds : Nat)
    (last : Text)
    {machine : Machine σ}
    (leaving : Leaving machine) :
    Command.whileRounds run test body negated (rounds + 1) last machine = .ok last machine :=
  isInterrupted_of_leaving leaving _

/-- A loop with a condition ends where its body leaves the frame. -/
theorem WhileReaches.ends
    {test body : Text}
    {negated : Bool}
    {rounds : Nat}
    {machine entry : Machine σ}
    (reaches : WhileReaches run test body negated rounds machine entry)
    {value : Text}
    {left : Machine σ}
    (ran : run body false entry = .ok value left)
    (leaving : Leaving left)
    (last : Text) :
    Command.whileRounds run test body negated rounds last machine = .ok value left := by
  induction reaches generalizing last with
  | body continuing holds =>
      rw [Command.whileRounds, isInterrupted_of_continuing continuing]
      refine (bind_of_ok holds).trans ((bind_of_ok ran).trans ?_)
      exact whileRounds_of_leaving _ _ _ _ _ leaving
  | round continuing holds bodyRan _ inductionHypothesis =>
      rw [Command.whileRounds, isInterrupted_of_continuing continuing]
      refine (bind_of_ok holds).trans ((bind_of_ok bodyRan).trans ?_)
      exact inductionHypothesis ran _

/--
The rounds of a loop with a step up to a run of its body or of its step; behind the step one more
round is possible.
-/
inductive ForReaches (run : Run σ) (test step body : Text) :
    Nat → Machine σ → Text → Machine σ → Prop where
  | body {rounds : Nat} {machine entry : Machine σ} :
      Continuing machine →
      Command.condition run test false machine = .ok (some true) entry →
      ForReaches run test step body (rounds + 1) machine body entry
  | step {rounds : Nat} {machine between entry : Machine σ} {value : Text} :
      Continuing machine →
      Command.condition run test false machine = .ok (some true) between →
      run body false between = .ok value entry →
      Continuing entry →
      ForReaches run test step body (rounds + 2) machine step entry
  | round {rounds : Nat} {machine between ended stepped entry : Machine σ}
      {value stepValue code : Text} :
      Continuing machine →
      Command.condition run test false machine = .ok (some true) between →
      run body false between = .ok value ended →
      Continuing ended →
      run step false ended = .ok stepValue stepped →
      ForReaches run test step body rounds stepped code entry →
      ForReaches run test step body (rounds + 1) machine code entry

/-- A loop with a step does nothing in a frame that is being left. -/
theorem forRounds_of_leaving
    (test step body : Text)
    (rounds : Nat)
    (last : Text)
    {machine : Machine σ}
    (leaving : Leaving machine) :
    Command.forRounds run test step body (rounds + 1) last machine = .ok last machine :=
  isInterrupted_of_leaving leaving _

/-- A loop with a step ends where its body or its step leaves the frame. -/
theorem ForReaches.ends
    {test step body : Text}
    {rounds : Nat}
    {machine entry : Machine σ}
    {code : Text}
    (reaches : ForReaches run test step body rounds machine code entry)
    {value : Text}
    {left : Machine σ}
    (ran : run code false entry = .ok value left)
    (leaving : Leaving left)
    (last : Text) :
    ∃ result, Command.forRounds run test step body rounds last machine = .ok result left := by
  induction reaches generalizing last with
  | body continuing holds =>
      refine ⟨value, ?_⟩
      rw [Command.forRounds, isInterrupted_of_continuing continuing]
      refine (bind_of_ok holds).trans ((bind_of_ok ran).trans ?_)
      rw [isInterrupted_of_leaving leaving]
      rfl
  | @step rounds machine between entry bodyValue continuing holds bodyRan stays =>
      refine ⟨bodyValue, ?_⟩
      rw [Command.forRounds, isInterrupted_of_continuing continuing]
      refine (bind_of_ok holds).trans ((bind_of_ok bodyRan).trans ?_)
      rw [isInterrupted_of_continuing stays]
      exact (bind_of_ok ran).trans (forRounds_of_leaving _ _ _ _ _ leaving)
  | @round rounds machine between ended stepped entry bodyValue _ code continuing holds bodyRan stays
      stepRan _ inductionHypothesis =>
      obtain ⟨result, ends⟩ := inductionHypothesis ran bodyValue
      refine ⟨result, ?_⟩
      rw [Command.forRounds, isInterrupted_of_continuing continuing]
      refine (bind_of_ok holds).trans ((bind_of_ok bodyRan).trans ?_)
      rw [isInterrupted_of_continuing stays]
      exact (bind_of_ok stepRan).trans ends

/-- The elements of a list up to the one with which the body of a loop over it is run. -/
inductive EachReaches (run : Run σ) (name body : Text) :
    List Text → Machine σ → Machine σ → Prop where
  | body {item : Text} {rest : List Text} {machine entry : Machine σ} {held : Option Text} :
      setVariable run name item .own machine = .ok held entry →
      EachReaches run name body (item :: rest) machine entry
  | next {item : Text} {rest : List Text} {machine between ended entry : Machine σ}
      {held : Option Text} {value : Text} :
      setVariable run name item .own machine = .ok held between →
      run body false between = .ok value ended →
      Continuing ended →
      EachReaches run name body rest ended entry →
      EachReaches run name body (item :: rest) machine entry

/-- A loop over a list ends where its body leaves the frame. -/
theorem EachReaches.ends
    {name body : Text}
    {items : List Text}
    {machine entry : Machine σ}
    (reaches : EachReaches run name body items machine entry)
    {value : Text}
    {left : Machine σ}
    (ran : run body false entry = .ok value left)
    (leaving : Leaving left)
    (results : List Text) :
    ∃ collected, Command.eachItem run name body items results machine = .ok collected left := by
  induction reaches generalizing results with
  | body assigned =>
      refine ⟨(if value.isEmpty then results else value :: results).reverse, ?_⟩
      rw [Command.eachItem]
      refine (bind_of_ok assigned).trans ((bind_of_ok ran).trans ?_)
      rw [isInterrupted_of_leaving leaving]
      rfl
  | @next item rest machine between ended entry held bodyValue assigned bodyRan continuing _
      inductionHypothesis =>
      obtain ⟨collected, ends⟩ := inductionHypothesis ran
        (if bodyValue.isEmpty then results else bodyValue :: results)
      refine ⟨collected, ?_⟩
      rw [Command.eachItem]
      refine (bind_of_ok assigned).trans ((bind_of_ok bodyRan).trans ?_)
      rw [isInterrupted_of_continuing continuing]
      exact ends

end Loops

/-! ## Commands -/

/-- A machine on which no error is pending any more. -/
def recovered (machine : Machine σ) : Machine σ :=
  { machine with interpreter := { machine.interpreter with error := none } }

/--
A control command comes to run one of its bodies: the code of the body, and the machine on which it
starts.
-/
inductive RunsBody (run : Run σ) (rounds : Nat) :
    Builtin → List Text → Machine σ → Text → Machine σ → Prop where
  | evaluate {arguments : List Text} {machine : Machine σ} :
      arguments ≠ [] →
      RunsBody run rounds .evaluate arguments machine (Text.joinSpaced arguments) machine
  | whenTrue {arguments rest : List Text} {test body : Text} {negated : Bool}
      {machine entry : Machine σ} :
      Command.negation arguments = (test :: body :: rest, negated) →
      Command.condition run test negated machine = .ok (some true) entry →
      RunsBody run rounds .conditional arguments machine body entry
  | whenFalse {arguments rest : List Text} {test body other : Text} {negated : Bool}
      {machine entry : Machine σ} :
      Command.negation arguments = (test :: body :: other :: rest, negated) →
      Command.condition run test negated machine = .ok (some false) entry →
      RunsBody run rounds .conditional arguments machine other entry
  | whileLoop {arguments rest : List Text} {test body : Text} {negated : Bool}
      {machine entry : Machine σ} :
      Command.negation arguments = (test :: body :: rest, negated) →
      WhileReaches run test body negated rounds machine entry →
      RunsBody run rounds .whileLoop arguments machine body entry
  | forStart {start test step body : Text} {rest : List Text} {machine : Machine σ} :
      0 < rounds →
      RunsBody run rounds .forLoop (start :: test :: step :: body :: rest) machine start machine
  | forLoop {start test step body code : Text} {rest : List Text}
      {machine started entry : Machine σ} {value : Text} :
      run start false machine = .ok value started →
      ForReaches run test step body rounds started code entry →
      RunsBody run rounds .forLoop (start :: test :: step :: body :: rest) machine code entry
  | forEach {arguments items : List Text} {name list body : Text}
      {machine between entry : Machine σ} :
      Command.loopParts "i" arguments = some (name, list, body) →
      readList run list machine = .ok items between →
      EachReaches run name body items between entry →
      RunsBody run rounds .forEach arguments machine body entry
  | attempt {body : Text} {rest : List Text} {machine : Machine σ} :
      machine.interpreter.error = none →
      RunsBody run rounds .attempt (body :: rest) machine body machine
  | handler {body handler : Text} {rest : List Text} {machine failed : Machine σ} {value : Text} :
      machine.interpreter.error = none →
      run body false machine = .ok value failed →
      failed.interpreter.error ≠ none →
      RunsBody run rounds .attempt (body :: handler :: rest) machine handler (recovered failed)

/-- A control command ends where one of its bodies leaves the frame, and does nothing more. -/
theorem RunsBody.ends
    {run : Run σ}
    {rounds : Nat}
    {command : Builtin}
    {arguments : List Text}
    {machine entry : Machine σ}
    {code : Text}
    (runsBody : RunsBody run rounds command arguments machine code entry)
    {value : Text}
    {left : Machine σ}
    (ran : run code false entry = .ok value left)
    (leaving : Leaving left) :
    ∃ result, callBuiltin run rounds command arguments machine = .ok (.value result) left := by
  cases runsBody with
  | evaluate given =>
      have notEmpty : arguments.isEmpty = false := by
        simpa using given
      refine ⟨value, ?_⟩
      simp only [callBuiltin, Command.joined, notEmpty, Bool.false_eq_true, if_false]
      exact bind_of_ok ran
  | whenTrue split holds =>
      refine ⟨value, ?_⟩
      simp only [callBuiltin, Command.conditional, split, Command.branch]
      exact (bind_of_ok holds).trans (bind_of_ok ran)
  | whenFalse split holds =>
      refine ⟨value, ?_⟩
      simp only [callBuiltin, Command.conditional, split, Command.branch]
      exact (bind_of_ok holds).trans (bind_of_ok ran)
  | whileLoop split reaches =>
      refine ⟨value, ?_⟩
      simp only [callBuiltin, Command.whileLoop, split]
      exact bind_of_ok (reaches.ends ran leaving [])
  | forStart bounded =>
      obtain ⟨more, rfl⟩ := Nat.exists_eq_add_one_of_ne_zero (Nat.ne_of_gt bounded)
      refine ⟨[], (bind_of_ok ran).trans ?_⟩
      exact bind_of_ok (forRounds_of_leaving _ _ _ _ _ leaving)
  | forLoop started reaches =>
      obtain ⟨result, ends⟩ := reaches.ends ran leaving []
      exact ⟨result, (bind_of_ok started).trans (bind_of_ok ends)⟩
  | forEach parts read reaches =>
      obtain ⟨collected, ends⟩ := reaches.ends ran leaving []
      refine ⟨ListText.write collected, ?_⟩
      simp only [callBuiltin, Command.forEach, parts]
      exact (bind_of_ok read).trans (bind_of_ok ends)
  | attempt unfailed =>
      refine ⟨value, ?_⟩
      simp only [callBuiltin, Command.attempt, hasError_bind_apply, unfailed, Option.isSome_none,
        Bool.false_eq_true, if_false]
      refine (bind_of_ok ran).trans ?_
      rw [hasError_bind_apply, leaving.unfailed]
      rfl
  | @handler body handler rest _ failed bodyValue unfailed bodyRan isFailed =>
      have pending : failed.interpreter.error.isSome = true :=
        Option.isSome_iff_ne_none.mpr isFailed
      refine ⟨value, ?_⟩
      simp only [callBuiltin, Command.attempt, hasError_bind_apply, unfailed, Option.isSome_none,
        Bool.false_eq_true, if_false]
      refine (bind_of_ok bodyRan).trans ?_
      rw [hasError_bind_apply, pending]
      exact bind_of_ok ran

end LittleScript.Eval
