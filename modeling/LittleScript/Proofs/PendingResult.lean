import LittleScript.Proofs.ControlState

namespace LittleScript

/-!
# Pending results

A `return` or a `result` leaves its value pending in the frame, and the script that owns the frame
takes it when it ends, so that it leaves nothing pending.  Between the evaluations of a host the
root frame is therefore clear, except after an evaluation that was nested too deeply: it stops
before anything can be taken, and what is pending then becomes the value of the next evaluation.
-/

variable {σ : Type}

/-- A frame whose code is being left has a result pending. -/
def Frame.IsSettled (frame : Frame) : Prop :=
  frame.stopping = true → frame.result ≠ none

namespace Interpreter

/-- There is a frame of this name, and if its code is being left it has a result pending. -/
def SettledAt (interpreter : Interpreter σ) (id : FrameId) : Prop :=
  ∃ frame, interpreter.frames[id]? = some frame ∧ frame.IsSettled

/-- Nothing is pending in a frame. -/
def ClearAt (interpreter : Interpreter σ) (id : FrameId) : Prop :=
  (interpreter.frame id).result = none ∧ (interpreter.frame id).stopping = false

/-- There is a root frame, and if its code is being left it has a result pending. -/
def RootSettled (interpreter : Interpreter σ) : Prop :=
  interpreter.SettledAt rootFrame

/-- Nothing is pending in the root frame. -/
def RootClear (interpreter : Interpreter σ) : Prop :=
  interpreter.ClearAt rootFrame

namespace SettledAt

variable {interpreter : Interpreter σ} {id : FrameId}

theorem lt_size
    (settled : interpreter.SettledAt id) :
    id < interpreter.frames.size := by
  obtain ⟨frame, found, _⟩ := settled
  exact (Array.getElem?_eq_some_iff.mp found).1

theorem updateFrame
    (settled : interpreter.SettledAt id)
    (other : FrameId)
    {change : Frame → Frame}
    (settles : ∀ frame : Frame, frame.IsSettled → (change frame).IsSettled) :
    (interpreter.updateFrame other change).SettledAt id := by
  obtain ⟨frame, found, frameSettled⟩ := settled
  simp only [SettledAt, Interpreter.updateFrame, Array.getElem?_modify]
  split
  · exact ⟨change frame, by rw [found, Option.map_some], settles frame frameSettled⟩
  · exact ⟨frame, found, frameSettled⟩

/-- Releasing another frame does not touch the frame. -/
theorem updateOther
    (settled : interpreter.SettledAt id)
    {other : FrameId}
    (distinct : other ≠ id)
    (change : Frame → Frame) :
    (interpreter.updateFrame other change).SettledAt id := by
  obtain ⟨frame, found, frameSettled⟩ := settled
  refine ⟨frame, ?_, frameSettled⟩
  rw [Interpreter.updateFrame, Array.getElem?_modify, if_neg distinct, found]

theorem addFrame
    (settled : interpreter.SettledAt id)
    (added : Frame) :
    (interpreter.addFrame added).2.SettledAt id := by
  have inside := settled.lt_size
  obtain ⟨frame, found, frameSettled⟩ := settled
  refine ⟨frame, ?_, frameSettled⟩
  rw [Interpreter.addFrame, Array.getElem?_push_lt inside, ← found,
    Array.getElem?_eq_getElem inside]

end SettledAt

end Interpreter

namespace Eval

theorem Step.settledAt
    (id : FrameId)
    {reach : FrameId → Bool}
    {update : Interpreter σ → Interpreter σ}
    (step : Step reach update)
    (interpreter : Interpreter σ)
    (settled : interpreter.SettledAt id) :
    (update interpreter).SettledAt id := by
  cases step with
  | putVariable frame name entry _ =>
      exact settled.updateFrame frame fun _ before => before
  | rename old new =>
      obtain ⟨functions, commands, renamed⟩ := interpreter.rename_getD_eq old new
      simp only [renamed]
      exact settled
  | finish value =>
      exact settled.updateFrame _ fun _ _ _ => by simp
  | provide value =>
      exact settled.updateFrame _ fun _ _ _ => by simp
  | resume =>
      exact settled.updateFrame _ fun _ _ stopping => by simp at stopping
  | take =>
      exact settled.updateFrame _ fun _ _ stopping => by simp at stopping
  | _ =>
      exact settled

/-- That a frame is settled lasts over scripts. -/
theorem settledAt_lasting
    (id : FrameId) :
    LastingScript (σ := σ)
      (fun before after => before.SettledAt id → after.SettledAt id)
      (fun before after => before.SettledAt id → after.SettledAt id) where
  refl _ settled := settled
  trans _ _ _ first second settled := second (first settled)
  step step interpreter := step.settledAt id interpreter
  error _ _ settled := settled
  inFrame _ _ _ _ inside settled := inside settled
  inNewFrame _ _ frame inside settled :=
    (inside (settled.addFrame frame)).updateOther (Nat.ne_of_gt settled.lt_size) Frame.release
  runWatch _ _ _ inside settled := inside settled
  inCatcher _ _ inside settled := inside settled
  outerRefl _ settled := settled
  within _ _ kept := kept
  enclose _ _ _ inside settled := inside settled

/-! ## Scripts that own a result -/

/-- Settling the value of a script in a frame clears the frame. -/
theorem settleValue_clears
    {id : FrameId}
    {value result : Text}
    {machine after : Machine σ}
    (here : machine.interpreter.current = id)
    (settled : machine.interpreter.SettledAt id)
    (ran : settleValue true value machine = .ok result after) :
    after.interpreter.ClearAt id := by
  obtain ⟨frame, found, frameSettled⟩ := settled
  have isFrame : machine.interpreter.frame id = frame := by
    simp [Interpreter.frame, found]
  have taken : settleValue true value machine =
      (takeResult >>= fun result => pure (result.getD value)) machine := rfl
  rw [taken, takeResult] at ran
  simp only [bind_assoc, interpreter_bind_apply, Interpreter.currentFrame, here, isFrame] at ran
  cases pending : frame.result with
  | none =>
      rw [pending] at ran
      cases ran
      refine ⟨isFrame ▸ pending, ?_⟩
      cases stopping : frame.stopping with
      | false =>
          exact isFrame ▸ stopping
      | true =>
          exact absurd pending (frameSettled stopping)
  | some result =>
      rw [pending] at ran
      cases ran
      simp only [Interpreter.ClearAt, Interpreter.updateCurrent, Interpreter.updateFrame,
        Interpreter.frame, here]
      simp [Array.getElem?_modify, found]

/-- A frame whose code is not being left is settled. -/
theorem prepared_settledAt
    (outermost : Bool)
    {machine : Machine σ}
    (present : machine.interpreter.current < machine.interpreter.frames.size) :
    (prepared true outermost machine).interpreter.SettledAt machine.interpreter.current := by
  refine ⟨{ machine.interpreter.frames[machine.interpreter.current] with stopping := false },
    ?_, fun stopping => by simp at stopping⟩
  cases outermost with
  | false =>
      simp [prepared, Interpreter.updateCurrent, Interpreter.updateFrame, present,
        Array.getElem_modify]
  | true =>
      simp [prepared, Interpreter.updateCurrent, Interpreter.updateFrame, present,
        Array.getElem_modify]

/--
A script that owns the result of its frame leaves nothing pending there.  The mark that the frame is
being left was cleared first, so the frame is settled whatever was pending before.
-/
theorem script_clears
    {run : Run σ}
    (runControl : ∀ code ownResult, Upholds
      (fun before after => after.control = before.control) (run code ownResult))
    (runSettled : ∀ id code ownResult, Upholds
      (fun before after => before.SettledAt id → after.SettledAt id) (run code ownResult))
    (rounds : Nat)
    (code : Text)
    {machine after : Machine σ}
    (free : machine.interpreter.HostFree)
    (present : machine.interpreter.current < machine.interpreter.frames.size)
    {value : Text}
    (ran : script run rounds code true machine = .ok value after) :
    after.interpreter.ClearAt machine.interpreter.current := by
  rw [script_apply] at ran
  obtain ⟨ended, body, rfl⟩ := ensuring_eq_ok ran
  rw [scriptBody_eq] at body
  obtain ⟨last, told, ranCommands, settledValue⟩ := bind_eq_ok body
  obtain ⟨_, between, world, ranText, rfl⟩ := runCommands_eq_ok ranCommands
  have composed : Composed (Scope.whole (σ := σ) True).toRealm fun run =>
      runText run rounds ⟨machine.interpreter.active.isEmpty, false⟩ code :=
    .bind (.skipBlanks ..) fun _ => .commands ..
  have start : (prepared true machine.interpreter.active.isEmpty
      (entered code machine)).interpreter.SettledAt machine.interpreter.current :=
    prepared_settledAt _ present
  have startsFree : (prepared true machine.interpreter.active.isEmpty
      (entered code machine)).interpreter.HostFree := by
    cases machine.interpreter.active.isEmpty <;> exact free
  have startsHere : (prepared true machine.interpreter.active.isEmpty
      (entered code machine)).interpreter.current = machine.interpreter.current := by
    cases machine.interpreter.active.isEmpty <;> rfl
  have keepsControl := composed.upholds control_lasting.toLasting
    (fun code ownResult => (runControl code ownResult).mono control_lasting.within) _ startsFree
  have keepsSettled := composed.upholds
    (settledAt_lasting machine.interpreter.current).toLasting (runSettled _) _ startsFree
  rw [final_of_ok ranText] at keepsControl keepsSettled
  have stillHere : between.interpreter.current = machine.interpreter.current :=
    (congrArg Control.current keepsControl.2).trans startsHere
  have cleared : ended.interpreter.ClearAt machine.interpreter.current := by
    refine settleValue_clears ?_ ?_ settledValue
    · exact stillHere
    · exact keepsSettled.2 start
  exact cleared

/-- Code that owns the result of its frame leaves nothing pending there. -/
theorem evaluate_clears
    (fuel : Nat)
    (code : Text)
    {machine after : Machine σ}
    (free : machine.interpreter.HostFree)
    (present : machine.interpreter.current < machine.interpreter.frames.size)
    {value : Text}
    (ran : evaluate fuel code true machine = .ok value after) :
    after.interpreter.ClearAt machine.interpreter.current := by
  cases fuel with
  | zero =>
      cases ran
  | succ fuel =>
      exact script_clears (control_lasting.evaluate fuel)
        (fun id => (settledAt_lasting id).evaluate fuel) fuel code free present ran

/-- An evaluation that a host starts at the root frame clears it unless it ends fatally. -/
theorem evaluateIn_clears
    (fuel : Nat)
    (context : Context)
    (code : Text)
    {machine : Machine σ}
    (free : machine.interpreter.HostFree)
    (idle : machine.interpreter.active = [])
    (atRoot : machine.interpreter.current = rootFrame)
    (settled : machine.interpreter.RootSettled)
    {evaluated : Evaluated}
    {after : Machine σ}
    (ran : evaluateIn (evaluate fuel) context code machine = .ok evaluated after)
    (notFatal : ∀ error, evaluated.failure ≠ some (.fatal error)) :
    after.interpreter.RootClear := by
  rw [evaluateIn_of_idle _ _ _ idle, catchTooDeep, ensuring] at ran
  cases reported :
      runReporting (evaluate fuel) code (outermostCall context code machine).machine with
  | error stop stopped =>
      rw [reported] at ran
      cases stop with
      | tooDeep error =>
          cases ran
          exact absurd rfl (notFatal error)
      | crash =>
          cases ran
      | exhausted =>
          cases ran
  | ok value ended =>
      rw [reported] at ran
      cases ran
      obtain ⟨result, between, ranCode, looked⟩ := bind_eq_ok reported
      cases looked
      have present : machine.interpreter.current < machine.interpreter.frames.size :=
        atRoot ▸ Interpreter.SettledAt.lt_size settled
      have cleared := evaluate_clears fuel code (by exact free) (by exact present) ranCode
      have isRoot : (outermostCall context code machine).machine.interpreter.current =
          rootFrame := atRoot
      rw [isRoot] at cleared
      exact cleared

end Eval

/-! ## The evaluations of a host -/

/-- An interpreter between evaluations at the root frame. -/
structure Interpreter.AtRest (interpreter : Interpreter σ) : Prop where
  free : interpreter.HostFree
  idle : interpreter.active = []
  atRoot : interpreter.current = rootFrame
  settled : interpreter.RootSettled

theorem Interpreter.AtRest.setDollar
    {interpreter : Interpreter σ}
    (atRest : interpreter.AtRest)
    (expansion : Text) :
    ({ interpreter with dollar := expansion } : Interpreter σ).AtRest :=
  ⟨atRest.free, atRest.idle, atRest.atRoot, atRest.settled⟩

/-- A configured interpreter is a fresh one, up to the dollar expansion. -/
theorem Configuration.interpreter_eq
    {configuration : Configuration}
    {callbacks : Callbacks σ}
    {interpreter : Interpreter σ}
    (configured : configuration.interpreter callbacks = .ok interpreter) :
    ∃ limits dollar, interpreter = { Interpreter.fresh limits callbacks with dollar } := by
  rw [Configuration.interpreter] at configured
  split at configured
  · cases configured
  · split at configured
    · cases configured
    · simp only at configured
      generalize isMade : Interpreter.fresh _ callbacks = made at configured
      obtain ⟨limits, isFresh⟩ : ∃ limits, Interpreter.fresh limits callbacks = made := ⟨_, isMade⟩
      split at configured
      · cases configured
        exact ⟨limits, interpreter.dollar, by rw [isFresh]⟩
      · cases configured
        exact ⟨limits, configuration.dollar, by rw [isFresh]⟩

/-- A configured interpreter is at rest. -/
theorem Configuration.atRest
    {configuration : Configuration}
    {callbacks : Callbacks σ}
    {interpreter : Interpreter σ}
    (configured : configuration.interpreter callbacks = .ok interpreter) :
    interpreter.AtRest := by
  have fresh : ∀ limits, (Interpreter.fresh limits callbacks).AtRest := by
    intro limits
    have free := Interpreter.HostFree.fresh limits callbacks
    obtain ⟨functions, commands, system, isFresh⟩ := Interpreter.fresh_eq limits callbacks
    rw [isFresh] at free ⊢
    exact ⟨free, rfl, rfl, {}, rfl, by simp [Frame.IsSettled]⟩
  obtain ⟨limits, dollar, rfl⟩ := Configuration.interpreter_eq configured
  exact (fresh limits).setDollar dollar

/-- One evaluation of a host, before which the host may change the world. -/
structure Turn (σ : Type) where
  world : World σ → World σ
  context : Context
  code : Text

namespace Turn

/-- What a turn starts on. -/
def begin (turn : Turn σ) (machine : Machine σ) : Machine σ :=
  { machine with world := turn.world machine.world }

/-- Take a turn. -/
def perform (fuel : Nat) (turn : Turn σ) (machine : Machine σ) :
    Outcome Eval.Evaluated × Machine σ :=
  (turn.begin machine).perform (Eval.evaluateIn (Eval.evaluate fuel) turn.context turn.code)

/-- Take turns one after the other. -/
def performAll (fuel : Nat) (turns : List (Turn σ)) (machine : Machine σ) : Machine σ :=
  turns.foldl (fun machine turn => (turn.perform fuel machine).2) machine

/-- A turn leaves an interpreter at rest, however it ends. -/
theorem perform_atRest
    (fuel : Nat)
    (turn : Turn σ)
    {machine : Machine σ}
    (atRest : machine.interpreter.AtRest) :
    (turn.perform fuel machine).2.interpreter.AtRest := by
  obtain ⟨free, idle, atRoot, settled⟩ := atRest
  have kept := (Eval.settledAt_lasting rootFrame).evaluate fuel turn.code true
    (Eval.outermostCall turn.context turn.code (turn.begin machine)).machine free
  have leaves := Eval.final_evaluateIn (Eval.evaluate fuel) turn.context turn.code
    (turn.begin machine)
  have control := Eval.control_evaluateIn fuel turn.context turn.code
    (show (turn.begin machine).interpreter.HostFree from free)
  rw [perform, Eval.perform_snd]
  constructor
  · rw [leaves]
    exact kept.1
  · exact (congrArg Control.active control).trans idle
  · exact (congrArg Control.current control).trans atRoot
  · rw [leaves]
    exact kept.2 settled

theorem performAll_atRest
    (fuel : Nat)
    (turns : List (Turn σ))
    {machine : Machine σ}
    (atRest : machine.interpreter.AtRest) :
    (performAll fuel turns machine).interpreter.AtRest := by
  induction turns generalizing machine with
  | nil =>
      exact atRest
  | cons turn rest inductionHypothesis =>
      exact inductionHypothesis (turn.perform_atRest fuel atRest)

/-- Where the run of the code of a turn ends or is stopped. -/
def runEnd (fuel : Nat) (turn : Turn σ) (machine : Machine σ) : Machine σ :=
  Eval.final (Eval.evaluate fuel turn.code true)
    (Eval.outermostCall turn.context turn.code (turn.begin machine)).machine

/-- A turn leaves pending in the root frame what the run of its code leaves there. -/
theorem perform_clear_iff
    (fuel : Nat)
    (turn : Turn σ)
    (machine : Machine σ) :
    (turn.perform fuel machine).2.interpreter.RootClear ↔
      (turn.runEnd fuel machine).interpreter.RootClear := by
  rw [perform, Eval.perform_snd, Eval.final_evaluateIn]
  exact Iff.rfl

/-- A turn that does not end fatally clears the root frame. -/
theorem perform_clears
    (fuel : Nat)
    (turn : Turn σ)
    {machine : Machine σ}
    (atRest : machine.interpreter.AtRest)
    {evaluated : Eval.Evaluated}
    (finished : (turn.perform fuel machine).1 = .finished evaluated)
    (notFatal : ∀ error, evaluated.failure ≠ some (.fatal error)) :
    (turn.perform fuel machine).2.interpreter.RootClear := by
  rw [perform, Machine.perform] at finished ⊢
  split at finished
  case h_1 value after ran =>
    cases finished
    refine Eval.evaluateIn_clears fuel turn.context turn.code ?_ ?_ ?_ ?_ ran notFatal
    · exact atRest.free
    · exact atRest.idle
    · exact atRest.atRoot
    · exact atRest.settled
  case h_2 =>
    cases finished

/--
Whatever evaluations a host has made on an interpreter and however they ended, a further one leaves
nothing pending in the root frame, except where it ends fatally while something is pending there.
-/
theorem clear_unless_stopped_pending
    {configuration : Configuration}
    {callbacks : Callbacks σ}
    {machine : Machine σ}
    (configured : configuration.interpreter callbacks = .ok machine.interpreter)
    (fuel : Nat)
    (earlier : List (Turn σ))
    (turn : Turn σ)
    {evaluated : Eval.Evaluated}
    (finished :
      (turn.perform fuel (performAll fuel earlier machine)).1 = .finished evaluated) :
    (turn.perform fuel (performAll fuel earlier machine)).2.interpreter.RootClear ↔
      ((∃ error, evaluated.failure = some (.fatal error)) →
        (turn.runEnd fuel (performAll fuel earlier machine)).interpreter.RootClear) := by
  have atRest := performAll_atRest fuel earlier (configuration.atRest configured)
  have same := turn.perform_clear_iff fuel (performAll fuel earlier machine)
  constructor
  · intro clear _
    exact same.mp clear
  · intro clearIfFatal
    by_cases isFatal : ∃ error, evaluated.failure = some (.fatal error)
    · exact same.mpr (clearIfFatal isFatal)
    · exact turn.perform_clears fuel atRest finished fun error fatal => isFatal ⟨error, fatal⟩

/-- The turn `result 5;[x]`, which provides a result and is then nested too deeply. -/
def providing : Turn Unit where
  world := id
  context := .background
  code := [0x72, 0x65, 0x73, 0x75, 0x6c, 0x74, 0x20, 0x35, 0x3b, 0x5b, 0x78, 0x5d]

/-- The turn `quote a`. -/
def quoting : Turn Unit where
  world := id
  context := .background
  code := [0x71, 0x75, 0x6f, 0x74, 0x65, 0x20, 0x61]

/-- The value of an evaluation that has not failed. -/
def value? : Outcome Eval.Evaluated → Option Text
  | .finished ⟨value, none⟩ => some value
  | _ => none

/--
After a fatal end with a result pending the next evaluation takes it, and the root frame is clear.
-/
theorem clear_unless_stopped_pending_quoting :
    (quoting.perform 2 (performAll 2 [providing] Eval.shallow)).2.interpreter.RootClear := by
  have configured : Configuration.interpreter { evaluations := 1 } {} =
      .ok Eval.shallow.interpreter := rfl
  have unfailed :
      (value? (quoting.perform 2 (performAll 2 [providing] Eval.shallow)).1).isSome = true := by
    decide +kernel
  cases ended : (quoting.perform 2 (performAll 2 [providing] Eval.shallow)).1 with
  | stopped stop =>
      rw [ended] at unfailed
      cases unfailed
  | finished evaluated =>
      refine (clear_unless_stopped_pending configured 2 [providing] quoting ended).mpr ?_
      rintro ⟨error, isFatal⟩
      rw [ended] at unfailed
      cases evaluated with
      | mk value failure =>
          subst isFatal
          cases unfailed

/-- A result that was provided before a fatal end is still pending, and is the next value. -/
theorem result_leaks_after_fatal :
    ¬ (performAll 2 [providing] Eval.shallow).interpreter.RootClear ∧
      value? (quoting.perform 2 (performAll 2 [providing] Eval.shallow)).1 = some [0x35] ∧
      value? (quoting.perform 2 Eval.shallow).1 = some [0x61] := by
  have pending :
      ((performAll 2 [providing] Eval.shallow).interpreter.frame rootFrame).result =
        some [0x35] := by
    decide +kernel
  refine ⟨fun clear => ?_, ?_, ?_⟩
  · cases pending.symm.trans clear.1
  · decide +kernel
  · decide +kernel

end Turn

end LittleScript
