import LittleScript.Proofs.FrameTree
import LittleScript.Proofs.NestingBound
import LittleScript.Proofs.UniformEvaluation

namespace LittleScript

/-!
# Going up and down again

Evaluation that goes up to the parent of its frame, and there goes down again, is back where it was:
code runs as if it had been run in place, only that two more evaluations are nested below it and that
it could not go down any further.
-/

variable {σ : Type}

/-- A host command that does not look at the log. -/
def Definition.Quiet : Definition σ → Prop
  | .host command => ∀ arguments, (command arguments).Quiet
  | _ => True

/-- An interpreter whose host does not look at the log. -/
structure Interpreter.LogBlind (interpreter : Interpreter σ) : Prop where
  callbacks : interpreter.callbacks.LogBlind
  commands : interpreter.OffersOnly Definition.Quiet

namespace Eval

/-- The text of the command that goes down to run code. -/
def downward (code : Text) : Text :=
  ListText.write [Builtin.name .downEvaluate, code]

/-- Back where an earlier machine was, with other counts and other records of the log. -/
def backIn (machine after : Machine σ) (statistics : Statistics) (records : List LogEntry) :
    Machine σ where
  interpreter :=
    { after.interpreter with
      current := machine.interpreter.current
      down := machine.interpreter.down
      active := machine.interpreter.active
      statistics }
  world := { after.world with records }

/-- How code ends that a command has run elsewhere: the command has succeeded if there is a value. -/
def endsBackIn (machine : Machine σ) (records : List LogEntry) :
    EStateM.Result Stop (Machine σ) Text → EStateM.Result Stop (Machine σ) Text
  | .ok value after =>
      let statistics := after.interpreter.statistics
      .ok value (backIn machine after { statistics with successes := statistics.successes + 1 }
        records)
  | .error stop after =>
      .error stop (backIn machine after after.interpreter.statistics records)

/-- An evaluation leaves the commands that the evaluations below have reached. -/
theorem evaluate_active
    (fuel : Nat)
    (code : Text)
    (ownResult : Bool)
    (machine : Machine σ) :
    (final (evaluate fuel code ownResult) machine).interpreter.active =
      machine.interpreter.active := by
  cases fuel with
  | zero =>
      rfl
  | succ fuel =>
      have asScript : final (evaluate (fuel + 1) code ownResult) machine =
          final (ensuring (scriptBody (evaluate fuel) fuel code ownResult
            machine.interpreter.active.isEmpty) (left machine)) (entered code machine) := by
        rw [final, final, evaluate, script_apply]
      rw [asScript, final_ensuring]
      rfl

/-- Calling the command that goes down runs code in the frame from which evaluation went up. -/
theorem dispatch_downward
    (run : Run σ)
    (rounds : Nat)
    (code : Text)
    {machine : Machine σ}
    (known : isBuiltin machine.interpreter (Builtin.name .downEvaluate) .downEvaluate = true)
    {frame : FrameId}
    (isDown : machine.interpreter.down = some frame) :
    dispatch run rounds [Builtin.name .downEvaluate, code] machine =
      (inFrame frame none (run code false) >>= fun value => settle (.value value)) machine := by
  have joined : Text.joinSpaced [code] = code := by
    simp [Text.joinSpaced, Text.joinWith]
  have called : callBuiltin run rounds .downEvaluate [code] =
      downEvaluate run code >>= fun value => pure (.value value) := by
    simp only [callBuiltin, Command.joined, joined]
    rfl
  rw [dispatch_of_isBuiltin run rounds [code] known, called, bind_assoc]
  have descends : downEvaluate run code machine = inFrame frame none (run code false) machine := by
    rw [downEvaluate, inspect_bind_apply, isDown]
  exact bind_congr_first descends

/-- A text that only goes down runs code in the frame from which evaluation went up. -/
theorem runCommands_downward
    (run : Run σ)
    (rounds : Nat)
    (code : Text)
    {machine : Machine σ}
    (within : machine.interpreter.depth ≤ machine.interpreter.limits.evaluations)
    (noError : machine.interpreter.error = none)
    (uncancelled :
      machine.interpreter.context = .running → machine.world.cancellation = none)
    (known : isBuiltin machine.interpreter (Builtin.name .downEvaluate) .downEvaluate = true)
    {frame : FrameId}
    (isDown : machine.interpreter.down = some frame) :
    runCommands run rounds (downward code) false false machine =
      (inFrame frame none (run code false) >>= fun value =>
        settle (.value value) >>= fun value => reportError >>= fun _ => pure value)
        (marked machine 0) := by
  have called :
      runText run rounds ⟨false, false⟩ (downward code) (prepared false false machine) =
        (inFrame frame none (run code false) >>= fun value => settle (.value value))
          (marked machine 0) := by
    have noErrorThere : (prepared false false machine).interpreter.error = none := noError
    have knownThere : isBuiltin (marked machine 0).interpreter (Builtin.name .downEvaluate)
        .downEvaluate = true :=
      known
    exact (runText_written run rounds false _ _ noErrorThere uncancelled).trans
      (dispatch_downward run rounds code knownThere isDown)
  rw [runCommands_of_within _ _ _ _ _ within, bind_congr_first called, bind_assoc]

/-- A command that has run code elsewhere, below another evaluation, ends back in its machine. -/
theorem inFrame_endsBackIn
    (fuel : Nat)
    (code : Text)
    (frame : FrameId)
    {machine : Machine σ}
    (several : ∀ only, machine.interpreter.active ≠ [only]) :
    ∃ records,
      (inFrame frame none (evaluate fuel code false) >>= fun value =>
        settle (.value value) >>= fun value => reportError >>= fun _ => pure value) machine =
      endsBackIn machine records (evaluate fuel code false (visiting frame none machine)) := by
  have ranFrame : inFrame frame none (evaluate fuel code false) machine =
      ensuring (evaluate fuel code false)
        (visiting machine.interpreter.current machine.interpreter.down)
        (visiting frame none machine) :=
    rfl
  have kept := evaluate_active fuel code false (visiting frame none machine)
  cases ran : evaluate fuel code false (visiting frame none machine) with
  | ok value after =>
      have sameActive : machine.interpreter.active = after.interpreter.active := by
        rw [final_of_ok ran] at kept
        exact kept.symm
      let counted := { after.interpreter.statistics with
        successes := after.interpreter.statistics.successes + 1 }
      have settled : settle (.value value)
            (visiting machine.interpreter.current machine.interpreter.down after) =
          .ok value (backIn machine after counted after.world.records) := by
        rw [backIn, sameActive]
        rfl
      have reported : reportError (backIn machine after counted after.world.records) =
          .ok () (backIn machine after counted after.world.records) :=
        reportError_of_several several
      rw [bind_of_ok (by rw [ranFrame, ensuring, ran]), bind_of_ok settled, bind_of_ok reported]
      exact ⟨after.world.records, rfl⟩
  | error stop after =>
      have sameActive : machine.interpreter.active = after.interpreter.active := by
        rw [final_of_error ran] at kept
        exact kept.symm
      rw [bind_of_error (by rw [ranFrame, ensuring, ran])]
      refine ⟨after.world.records, ?_⟩
      rw [endsBackIn, backIn, sameActive]
      rfl

/-- Going up and down again runs code in place, with two more evaluations below. -/
theorem upEvaluate_downward
    (fuel : Nat)
    (code : Text)
    {machine : Machine σ}
    {parent : FrameId}
    (isParent : machine.interpreter.currentFrame.parent = some parent)
    (running : machine.interpreter.active ≠ [])
    (noError : machine.interpreter.error = none)
    (uncancelled :
      machine.interpreter.context = .running → machine.world.cancellation = none)
    (known : isBuiltin machine.interpreter (Builtin.name .downEvaluate) .downEvaluate = true)
    (spare : ∀ error after,
      upEvaluate (evaluate (fuel + 1)) (downward code) machine ≠ .error (.tooDeep error) after) :
    ∃ records, upEvaluate (evaluate (fuel + 1)) (downward code) machine =
      endsBackIn machine records
        (evaluate fuel code false
          (machine.shifted (0 :: machine.interpreter.active) none machine.world.records)) := by
  have busy : machine.interpreter.active.isEmpty = false := by
    simpa using running
  let up := visiting parent (some machine.interpreter.current) machine
  let start := marked (entered (downward code) up) 0
  have ranUp : upEvaluate (evaluate (fuel + 1)) (downward code) machine =
      ensuring (evaluate (fuel + 1) (downward code) false)
        (visiting machine.interpreter.current machine.interpreter.down) up := by
    rw [upEvaluate, interpreter_bind_apply, isParent]
    rfl
  have ranScript : evaluate (fuel + 1) (downward code) false up =
      ensuring (runCommands (evaluate fuel) fuel (downward code) false false)
        (left up) (entered (downward code) up) := by
    have isBusy : up.interpreter.active.isEmpty = false := busy
    have unsettled : settleValue (σ := σ) false = pure := rfl
    rw [evaluate, script_apply, scriptBody_eq, isBusy, unsettled, bind_pure]
  by_cases within : (entered (downward code) up).interpreter.depth ≤
      (entered (downward code) up).interpreter.limits.evaluations
  · have ranCommands : runCommands (evaluate fuel) fuel (downward code) false false
          (entered (downward code) up) = _ :=
      runCommands_downward (evaluate fuel) fuel code within noError uncancelled known rfl
    have several : ∀ only, start.interpreter.active ≠ [only] :=
      fun only alone => running (List.cons.inj alone).2
    obtain ⟨records, endsBack⟩ :=
      inFrame_endsBackIn fuel code machine.interpreter.current several
    have isStart : visiting machine.interpreter.current none start =
        machine.shifted (0 :: machine.interpreter.active) none machine.world.records := by
      simp [start, up, visiting, marked, entered, Machine.shifted, busy]
    rw [isStart] at endsBack
    refine ⟨records, ?_⟩
    rw [ranUp, ensuring, ranScript, ensuring, ranCommands, endsBack]
    cases evaluate fuel code false
        (machine.shifted (0 :: machine.interpreter.active) none machine.world.records) <;> rfl
  · obtain ⟨error, stopped, refused⟩ : ∃ error stopped,
        guardDepth (entered (downward code) up) = .error (.tooDeep error) stopped :=
      ⟨_, guardDepth_of_beyond (Nat.lt_of_not_le within)⟩
    have stops : upEvaluate (evaluate (fuel + 1)) (downward code) machine =
        .error (.tooDeep error) (visiting machine.interpreter.current machine.interpreter.down
          (left up stopped)) := by
      rw [ranUp, ensuring, ranScript, ensuring, runCommands, bind_of_error refused]
    exact absurd stops (spare error _)

/-! ## What going up and down again comes to -/

/--
Code that never goes down runs the same in place and when evaluation goes up and down again, if that
is not nested too deeply: it has the same value, or is stopped by the same, and leaves the same
error, output, commands and frames.  Then evaluation is where it was.  The shallow run is barred
from going down by what does not stop it anyway.
-/
theorem downEvaluate_undoes_upEvaluate
    (fuel : Nat)
    (code : Text)
    {machine : Machine σ}
    (blind : machine.interpreter.LogBlind)
    (framed : machine.interpreter.WellFramed)
    (running : machine.interpreter.active ≠ [])
    (notRoot : machine.interpreter.current ≠ rootFrame)
    (noError : machine.interpreter.error = none)
    (uncancelled :
      machine.interpreter.context = .running → machine.world.cancellation = none)
    (known : isBuiltin machine.interpreter (Builtin.name .downEvaluate) .downEvaluate = true)
    (never : NeverDescends fuel code false machine)
    (spare : ∀ error after,
      upEvaluate (evaluate (fuel + 1)) (downward code) machine ≠ .error (.tooDeep error) after) :
    ∃ records, upEvaluate (evaluate (fuel + 1)) (downward code) machine =
      endsBackIn machine records (evaluate fuel code false machine) := by
  obtain ⟨parent, isParent⟩ :=
    Option.isSome_iff_exists.mp (framed.parented framed.current notRoot)
  obtain ⟨records, ranDeep⟩ :=
    upEvaluate_downward fuel code isParent running noError uncancelled known spare
  obtain ⟨bar, escapes, notBar⟩ : ∃ bar : Stop, (∀ error, bar ≠ .tooDeep error) ∧
      ∀ after, evaluate fuel code false machine ≠ .error bar after := by
    by_cases crashes : ∃ after, evaluate fuel code false machine = .error .crash after
    · obtain ⟨after, crashed⟩ := crashes
      exact ⟨.exhausted, by simp, by simp [crashed]⟩
    · exact ⟨.crash, by simp, fun after crashed => crashes ⟨after, crashed⟩⟩
  let terms : Terms := ⟨some bar, false, true, fun error isBar => escapes error (by simpa using isBar)⟩
  let footing : Footing :=
    { shallow := machine.interpreter.active
      deep := 0 :: machine.interpreter.active
      sameOutermost := by
        rw [List.getLast?_cons, List.getLast?_eq_some_getLast running]
        rfl
      notHigher := Nat.le_succ _
      inside := false
      sameDown := false }
  have kept : Kept terms footing machine.interpreter := by
    refine ⟨blind.commands.mono fun definition quiet => ?_, .inr blind.callbacks, ?_⟩
    · cases definition with
      | host command => exact ⟨rfl, quiet⟩
      | _ => trivial
    · intro _ _ error pending
      rw [noError] at pending
      cases pending
  have starts : Matches terms footing machine
      (machine.shifted (0 :: machine.interpreter.active) none machine.world.records) :=
    .of machine [] none _ rfl (fun inside => nomatch inside) (fun visited => nomatch visited)
      (fun exact => nomatch exact) ⟨(fun exact => nomatch exact), .inr ⟨bar, rfl⟩⟩ kept
  have ends := runsAlike terms fuel footing code false _ _ starts
  rw [never] at ends
  cases ranShallow : evaluate fuel code false machine <;>
    cases ranThere : evaluate fuel code false
      (machine.shifted (0 :: machine.interpreter.active) none machine.world.records) <;>
    rw [ranShallow, ranThere] at ends <;> rw [ranThere] at ranDeep <;> cases ends
  case ok.ok.ok alike =>
    obtain ⟨_, _, _, _, _, _, _, _, _⟩ := alike
    exact ⟨records, ranDeep⟩
  case error.error.error alike =>
    obtain ⟨_, _, _, _, _, _, _, _, _⟩ := alike
    exact ⟨records, ranDeep⟩
  case ok.error.tooDeep =>
    exact absurd ranDeep (spare _ _)
  case error.error.tooDeep =>
    exact absurd ranDeep (spare _ _)
  case error.ok.barred isBar =>
    cases isBar
    exact absurd ranShallow (notBar _)
  case error.error.barred isBar =>
    cases isBar
    exact absurd ranShallow (notBar _)

/-- An interpreter with the commands `downeval` and `s`, which sets variables. -/
def descending : Interpreter Unit :=
  (({} : Interpreter Unit).define (Builtin.name .downEvaluate) (.builtin .downEvaluate)).define
    [0x73] (.builtin .setVariable)

/-- That interpreter at the first command of a text, in a frame below the root. -/
def descendingBelow : Machine Unit where
  interpreter :=
    { (descending.addFrame { parent := some rootFrame }).2 with current := 1, active := [0] }
  world := { host := () }

/-- Code that sets a variable and gives its value. -/
def settingThere : Text :=
  Text.ofString "s x 1; s x"

/-- What has stopped an action. -/
def stop? {α : Type} : EStateM.Result Stop (Machine σ) α → Option Stop
  | .ok _ _ => none
  | .error stop _ => some stop

/--
Below the root frame, code goes up and comes down again, and sets the variable of its own frame.
-/
theorem downEvaluate_undoes_upEvaluate_setting :
    ∃ records, upEvaluate (evaluate 3) (downward settingThere) descendingBelow =
      endsBackIn descendingBelow records (evaluate 2 settingThere false descendingBelow) := by
  have blind : descendingBelow.interpreter.LogBlind := by
    refine ⟨⟨fun answers => ?_, fun handled => nomatch handled⟩, ?_⟩
    · cases answers <;> contradiction
    · have empty : ({} : Interpreter Unit).OffersOnly Definition.Quiet :=
        fun _ member => nomatch member
      have quiet : ∀ command, Definition.Quiet (σ := Unit) (.builtin command) :=
        fun _ => True.intro
      exact (empty.define _ (quiet _)).define _ (quiet _)
  have framed : descendingBelow.interpreter.WellFramed := by
    have rooted : descending.WellFramed := .of_new rfl rfl rfl
    have isBelow : ({ parent := some rootFrame } : Frame).parent = some rootFrame := rfl
    have below := rooted.addFrame isBelow rooted.rooted
    exact ⟨below.rooted, below.older, below.parented, below.current, below.down⟩
  have known : isBuiltin descendingBelow.interpreter (Builtin.name .downEvaluate)
      .downEvaluate = true := by
    decide +kernel
  have free : descendingBelow.interpreter.HostFree := by
    have offers : ({} : Interpreter Unit).HostFree := fun _ member => nomatch member
    exact (offers.define _ (by simp)).define _ (by simp)
  have never : NeverDescends 2 settingThere false descendingBelow := by
    refine .of_barred free rfl fun after crashed => ?_
    have goesThrough :
        stop? (evaluateVia (dispatchVia barred) 2 settingThere false descendingBelow) = none := by
      decide +kernel
    rw [crashed] at goesThrough
    cases goesThrough
  have spare : ∀ error after,
      upEvaluate (evaluate 3) (downward settingThere) descendingBelow ≠
        .error (.tooDeep error) after := by
    intro error after stopped
    have goesThrough :
        stop? (upEvaluate (evaluate 3) (downward settingThere) descendingBelow) = none := by
      decide +kernel
    rw [stopped] at goesThrough
    cases goesThrough
  exact downEvaluate_undoes_upEvaluate 2 settingThere blind framed (by decide) (by decide) rfl
    (fun heeds => nomatch heeds) known never spare

end Eval

end LittleScript
