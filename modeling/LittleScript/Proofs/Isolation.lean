import LittleScript.Proofs.Lasting

namespace LittleScript

/-!
# Isolation of function calls

Without the commands that evaluate code up and down the frames, a called function reaches the root
frame and the frames that are made while it runs, and no other.  It leaves the frames of its
callers as they are, and what it does does not hang on their variables.
-/

variable {σ α β : Type}

/-- A definition by which code stays among the frames it made: neither a host's nor up or down. -/
def Definition.StaysWithin : Definition σ → Prop
  | .host _ => False
  | .builtin command => command ≠ .upEvaluate ∧ command ≠ .downEvaluate
  | .script _ _ => True

/-- The frames within reach of a call before which there were `size` frames. -/
def calleeReach (size : Nat) (id : FrameId) : Bool :=
  id == rootFrame || decide (size ≤ id)

/-- The root frame is within reach of every call. -/
theorem calleeReach_root
    (size : Nat) :
    calleeReach size rootFrame = true :=
  rfl

/-- So are the frames that the call makes. -/
theorem calleeReach_of_le
    {size : Nat}
    {id : FrameId}
    (newer : size ≤ id) :
    calleeReach size id = true := by
  simp [calleeReach, newer]

/-- An interpreter in the course of a call before which there were `size` frames. -/
structure Interpreter.InCall (size : Nat) (interpreter : Interpreter σ) : Prop where
  offers : interpreter.OffersOnly Definition.StaysWithin
  current : calleeReach size interpreter.current = true
  grown : size ≤ interpreter.frames.size

/-- Where code stays among its frames there is no command of a host. -/
theorem Interpreter.OffersOnly.hostFree
    {interpreter : Interpreter σ}
    (offers : interpreter.OffersOnly Definition.StaysWithin) :
    interpreter.HostFree := by
  intro entry member function found command isHost
  have accepted := offers entry member function found
  rw [isHost] at accepted
  exact accepted

namespace Eval

/-- The scope of a call before which there were `size` frames. -/
def Scope.callee (size : Nat) : Scope σ where
  holds := Interpreter.InCall size
  reach := calleeReach size
  allowed command := command ≠ .upEvaluate ∧ command ≠ .downEvaluate
  drops := True
  free inCall := inCall.offers.hostFree
  root := rfl
  current inCall := inCall.current
  offers inCall named found := inCall.offers.of_get? named found
  up allowed := absurd rfl allowed.1
  down allowed := absurd rfl allowed.2

end Eval

/-- A machine without the variables that are out of reach. -/
def Machine.veiled (reach : FrameId → Bool) (machine : Machine σ) : Machine σ :=
  { machine with interpreter := machine.interpreter.veiled reach }

/-- How an action ended, without the variables that are out of reach in what it left. -/
def veilEnd (reach : FrameId → Bool) :
    EStateM.Result Stop (Machine σ) α → EStateM.Result Stop (Machine σ) α
  | .ok value after => .ok value (after.veiled reach)
  | .error stop after => .error stop (after.veiled reach)

namespace Eval

/-! ## New frames and other interpreters -/

/-- What an action in a new frame starts on. -/
def pushed (frame : Frame) (machine : Machine σ) : Machine σ :=
  frameRecord "push frame" { machine with interpreter :=
    { (machine.interpreter.addFrame frame).2 with current := machine.interpreter.frames.size } }

/-- What is left of what an action in a new frame leaves. -/
def popped (machine after : Machine σ) : Machine σ :=
  frameRecord "pop frame" { after with interpreter :=
    { after.interpreter.updateFrame machine.interpreter.frames.size Frame.release with
      current := machine.interpreter.current } }

/-- An action in a new frame starts on one frame more, which is left behind it. -/
theorem inNewFrame_apply
    (frame : Frame)
    (action : Eval σ α)
    (machine : Machine σ) :
    inNewFrame frame action machine = ensuring action (popped machine) (pushed frame machine) :=
  rfl

section Veil

variable {reach : FrameId → Bool} {machine : Machine σ}

/-- A frame that is made within reach does not hang on what is out of reach. -/
theorem pushed_veiled
    (reached : reach machine.interpreter.frames.size = true)
    (frame : Frame) :
    pushed frame (machine.veiled reach) = (pushed frame machine).veiled reach := by
  have added := machine.interpreter.veiled_addFrame reached frame
  simp only [pushed, Machine.veiled, Interpreter.size_veiled, ← added]
  rfl

/-- Nor does leaving it. -/
theorem popped_veiled
    (reached : reach machine.interpreter.frames.size = true)
    (after : Machine σ) :
    popped (machine.veiled reach) (after.veiled reach) = (popped machine after).veiled reach := by
  have released := after.interpreter.veiled_updateFrame reached Frame.release
  simp only [popped, Machine.veiled, Interpreter.size_veiled, ← released]
  rfl

/-- Another interpreter does not see the veil. -/
theorem onInterpreter_veiled
    (other : Interpreter σ)
    (action : Eval σ α)
    (machine : Machine σ) :
    onInterpreter other action (machine.veiled reach) =
      veilEnd reach (onInterpreter other action machine) := by
  have runs : ∀ machine : Machine σ, onInterpreter other action machine =
      ensuring action (fun after => { after with interpreter := machine.interpreter })
        { machine with interpreter := other } :=
    fun _ => rfl
  rw [runs, runs, ensuring, ensuring]
  have sameStart : { machine.veiled reach with interpreter := other } =
      { machine with interpreter := other } := rfl
  rw [sameStart]
  cases action { machine with interpreter := other } with
  | ok value after =>
      rfl
  | error stop after =>
      rfl

end Veil

end Eval

namespace Interpreter.InCall

variable {size : Nat} {interpreter : Interpreter σ}

/-- A new frame is within reach. -/
theorem reach_size
    (inCall : interpreter.InCall size) :
    calleeReach size interpreter.frames.size = true :=
  calleeReach_of_le inCall.grown

/-- A change of a frame keeps an interpreter in the call. -/
theorem updateFrame
    (inCall : interpreter.InCall size)
    (id : FrameId)
    (change : Frame → Frame) :
    (interpreter.updateFrame id change).InCall size where
  offers := inCall.offers
  current := inCall.current
  grown := by
    rw [Interpreter.updateFrame, Array.size_modify]
    exact inCall.grown

/-- Renaming a command, if it succeeds, brings no other one in. -/
theorem rename
    (inCall : interpreter.InCall size)
    (old new : Text) :
    ((interpreter.rename old new).toOption.getD interpreter).InCall size := by
  cases attempted : interpreter.rename old new with
  | error reason =>
      exact inCall
  | ok renamed =>
      have offers := inCall.offers.rename attempted
      obtain ⟨functions, commands, rfl⟩ := Interpreter.rename_eq attempted
      exact ⟨offers, inCall.current, inCall.grown⟩

end Interpreter.InCall

namespace Eval

/-! ## Confined actions -/

/-- A scope whose interpreters stay in it, whatever is done within its reach. -/
structure Scope.Stable (scope : Scope σ) : Prop where
  drops : scope.drops
  fresh : ∀ {interpreter}, scope.holds interpreter →
    scope.reach interpreter.frames.size = true
  step : ∀ {update}, Step scope.reach update → ∀ {interpreter}, scope.holds interpreter →
    scope.holds (update interpreter)
  control : ∀ {interpreter}, scope.holds interpreter → ∀ error active source catchers,
    scope.holds { interpreter with error, active, source, catchers }
  visit : ∀ {interpreter}, scope.holds interpreter → ∀ {frame down}, scope.reach frame = true →
    (∀ id, down = some id → scope.reach id = true ∨ interpreter.down = some id) →
    scope.holds { interpreter with current := frame, down }
  back : ∀ {before after down}, scope.holds before → scope.holds after →
    down = before.down ∨ down = after.down →
    scope.holds { after with current := before.current, down }
  push : ∀ {interpreter}, scope.holds interpreter → ∀ {frame : Frame},
    (∀ parent, frame.parent = some parent → scope.reach parent = true) →
    scope.holds { (interpreter.addFrame frame).2 with current := interpreter.frames.size }
  release : ∀ {interpreter}, scope.holds interpreter → ∀ id,
    scope.holds (interpreter.updateFrame id Frame.release)

/-- Steps keep an interpreter in the course of a call. -/
theorem Step.inCall
    {size : Nat}
    {update : Interpreter σ → Interpreter σ}
    (step : Step (calleeReach size) update)
    {interpreter : Interpreter σ}
    (inCall : interpreter.InCall size) :
    (update interpreter).InCall size := by
  cases step with
  | putVariable frame name entry reached =>
      exact inCall.updateFrame _ _
  | define name parameters body =>
      exact ⟨inCall.offers.define name True.intro, inCall.current, inCall.grown⟩
  | rename old new =>
      exact inCall.rename old new
  | finish value =>
      exact inCall.updateFrame _ _
  | provide value =>
      exact inCall.updateFrame _ _
  | resume =>
      exact inCall.updateFrame _ _
  | take =>
      exact inCall.updateFrame _ _
  | _ =>
      exact ⟨inCall.offers, inCall.current, inCall.grown⟩

/-- Nothing that is done within a call leaves its scope. -/
theorem Scope.callee_stable
    (size : Nat) :
    (Scope.callee (σ := σ) size).Stable where
  drops := True.intro
  fresh inCall := inCall.reach_size
  step update _ inCall := update.inCall inCall
  control inCall _ _ _ _ := ⟨inCall.offers, inCall.current, inCall.grown⟩
  visit inCall _ _ reached _ := ⟨inCall.offers, reached, inCall.grown⟩
  back before after _ := ⟨after.offers, before.current, after.grown⟩
  push inCall _ _ := ⟨inCall.offers, inCall.reach_size,
    Nat.le_trans inCall.grown (by simp [Interpreter.addFrame])⟩
  release inCall id := inCall.updateFrame id _

/--
On a machine an action is confined to what is within reach: it leaves the frames out of reach as
they are, and without their variables it does the same.
-/
structure ConfinedAt (reach : FrameId → Bool) (action : Eval σ α) (machine : Machine σ) : Prop where
  hidden : ∀ id, reach id = false →
    (final action machine).interpreter.frames[id]? = machine.interpreter.frames[id]?
  blind : action (machine.veiled reach) = veilEnd reach (action machine)

/-- On the interpreters of a scope an action is confined to its reach, and stays in the scope. -/
def Confined (scope : Scope σ) (action : Eval σ α) : Prop :=
  ∀ machine : Machine σ, scope.holds machine.interpreter →
    scope.holds (final action machine).interpreter ∧ ConfinedAt scope.reach action machine

namespace ConfinedAt

variable {reach : FrameId → Bool}

/-- An action that runs another one, confined, and puts something within reach back. -/
theorem of_ensuring
    {action whole : Eval σ α}
    {machine entered : Machine σ}
    {cleanup veiledCleanup : Machine σ → Machine σ}
    (inside : ConfinedAt reach action entered)
    (runs : whole machine = ensuring action cleanup entered)
    (veiledRuns : whole (machine.veiled reach) =
      ensuring action veiledCleanup (entered.veiled reach))
    (commutes : ∀ after, veiledCleanup (after.veiled reach) =
      (cleanup after).veiled reach)
    (enters : ∀ id, reach id = false →
      entered.interpreter.frames[id]? = machine.interpreter.frames[id]?)
    (leaves : ∀ after id, reach id = false →
      (cleanup after).interpreter.frames[id]? = after.interpreter.frames[id]?) :
    ConfinedAt reach whole machine := by
  constructor
  · intro id isHidden
    have whole_final : final whole machine = cleanup (final action entered) := by
      rw [final, runs]
      exact final_ensuring action cleanup entered
    rw [whole_final, leaves _ id isHidden, inside.hidden id isHidden, enters id isHidden]
  · rw [veiledRuns, runs, ensuring, ensuring, inside.blind]
    cases action entered with
    | ok value after =>
        simp only [veilEnd, commutes]
    | error stop after =>
        simp only [veilEnd, commutes]

/-- An action in a new frame within reach. -/
theorem inNewFrame
    {frame : Frame}
    {action : Eval σ α}
    {machine : Machine σ}
    (reached : reach machine.interpreter.frames.size = true)
    (inside : ConfinedAt reach action (pushed frame machine)) :
    ConfinedAt reach (Eval.inNewFrame frame action) machine := by
  refine inside.of_ensuring rfl ?_ (popped_veiled reached) ?_ ?_
  · rw [inNewFrame_apply, pushed_veiled reached]
  · exact fun _ isHidden => machine.interpreter.addFrame_hidden reached isHidden frame
  · exact fun after _ isHidden => after.interpreter.updateFrame_hidden reached isHidden _

end ConfinedAt

namespace Confined

variable {scope : Scope σ}

/-- An action that leaves the interpreter alone and looks only at the world and the context. -/
theorem of_same
    {action : Eval σ α}
    (same : ∀ machine, (final action machine).interpreter = machine.interpreter)
    (blind : ∀ machine, action (machine.veiled scope.reach) =
      veilEnd scope.reach (action machine)) :
    Confined scope action := by
  intro machine held
  rw [same machine]
  refine ⟨held, ?_, blind machine⟩
  intro id _
  rw [same machine]

/-- Confined actions follow one another. -/
theorem bind
    {action : Eval σ α}
    {next : α → Eval σ β}
    (first : Confined scope action)
    (second : ∀ value, Confined scope (next value)) :
    Confined scope (action >>= next) := by
  intro machine held
  obtain ⟨heldBetween, hidden, blind⟩ := first machine held
  cases ran : action machine with
  | error stop after =>
      rw [ran] at blind
      rw [final_of_error ran] at heldBetween hidden
      have whole : (action >>= next) machine = .error stop after := bind_of_error ran
      refine ⟨?_, ?_, ?_⟩
      · rw [final_of_error whole]
        exact heldBetween
      · rw [final_of_error whole]
        exact hidden
      · rw [whole, bind_of_error blind]
        rfl
  | ok value between =>
      rw [ran] at blind
      rw [final_of_ok ran] at heldBetween hidden
      obtain ⟨heldAfter, hiddenAfter, blindAfter⟩ := second value between heldBetween
      have whole : (action >>= next) machine = next value between := bind_of_ok ran
      have ends : final (action >>= next) machine = final (next value) between := by
        rw [final, final, whole]
      refine ⟨?_, ?_, ?_⟩
      · rw [ends]
        exact heldAfter
      · intro id isHidden
        rw [ends, hiddenAfter id isHidden, hidden id isHidden]
      · rw [whole, bind_of_ok blind, blindAfter]

/-- A change is confined that neither sees nor changes frames out of reach. -/
theorem change
    {update : Interpreter σ → Interpreter σ}
    (held : ∀ interpreter, scope.holds interpreter → scope.holds (update interpreter))
    (hidden : ∀ interpreter, scope.holds interpreter → ∀ id, scope.reach id = false →
      (update interpreter).frames[id]? = interpreter.frames[id]?)
    (blind : ∀ interpreter, scope.holds interpreter →
      update (interpreter.veiled scope.reach) =
        (update interpreter).veiled scope.reach) :
    Confined scope (Eval.change update) := by
  intro machine started
  refine ⟨held _ started, hidden _ started, ?_⟩
  simp only [Eval.change, Machine.veiled, veilEnd, blind _ started]

/-- A value is confined. -/
theorem pure
    (value : α) :
    Confined scope (Pure.pure value : Eval σ α) :=
  of_same (fun _ => rfl) fun _ => rfl

/-- A look at the interpreter, if what follows does not hang on what is out of reach. -/
theorem consult
    (view : Interpreter σ → α)
    {next : α → Eval σ β}
    (blind : ∀ interpreter : Interpreter σ, scope.holds interpreter →
      next (view (interpreter.veiled scope.reach)) = next (view interpreter))
    (confined : ∀ interpreter : Interpreter σ, scope.holds interpreter →
      Confined scope (next (view interpreter))) :
    Confined scope (inspect view >>= next) := by
  intro machine held
  obtain ⟨ended, hidden, nextBlind⟩ := confined machine.interpreter held machine held
  refine ⟨ended, hidden, ?_⟩
  have looked : (inspect view >>= next) (machine.veiled scope.reach) =
      next (view (machine.interpreter.veiled scope.reach))
        (machine.veiled scope.reach) := rfl
  rw [looked, blind _ held, nextBlind]
  rfl

/-- Whether an error is pending does not hang on the frames. -/
theorem hasError :
    Confined scope Eval.hasError :=
  of_same (fun _ => rfl) fun _ => rfl

/-- Nor does dropping it. -/
theorem dropError
    (stable : scope.Stable) :
    Confined scope clearError :=
  change (fun interpreter held =>
      stable.control held none interpreter.active interpreter.source interpreter.catchers)
    (fun _ _ _ _ => rfl) fun _ _ => rfl

end Confined

/-- Steps within reach are confined to it. -/
theorem Step.confined
    {scope : Scope σ}
    (stable : scope.Stable)
    {update : Interpreter σ → Interpreter σ}
    (step : Step scope.reach update) :
    Confined scope (Eval.change update) := by
  have kept : ∀ interpreter, scope.holds interpreter → scope.holds (update interpreter) :=
    fun _ => stable.step step
  have atCurrent : ∀ change : Frame → Frame,
      (∀ interpreter, scope.holds interpreter → scope.holds (interpreter.updateCurrent change)) →
      Confined scope (Eval.change fun interpreter : Interpreter σ =>
        interpreter.updateCurrent change) := by
    intro change keptAt
    refine .change keptAt ?_ ?_
    · exact fun interpreter held _ isHidden =>
        interpreter.updateFrame_hidden (scope.current held) isHidden change
    · exact fun interpreter held =>
        (interpreter.veiled_updateFrame (scope.current held) change).symm
  cases step with
  | putVariable frame name entry reached =>
      refine .change kept ?_ ?_
      · exact fun interpreter _ _ isHidden => interpreter.updateFrame_hidden reached isHidden _
      · exact fun interpreter _ => (interpreter.veiled_updateFrame reached _).symm
  | rename old new =>
      refine .change kept (fun interpreter _ _ _ => ?_) fun interpreter _ => ?_
      · obtain ⟨functions, commands, renamed⟩ := interpreter.rename_getD_eq old new
        simp only [renamed]
      · simp only [Interpreter.rename, Interpreter.veiled]
        split
        · rfl
        · split
          · rfl
          · rfl
  | finish value =>
      exact atCurrent _ kept
  | provide value =>
      exact atCurrent _ kept
  | resume =>
      exact atCurrent _ kept
  | take =>
      exact atCurrent _ kept
  | _ =>
      exact .change kept (fun _ _ _ _ => rfl) fun _ _ => rfl

/-- Raising an error is confined to any reach. -/
theorem raiseAt_confined
    {scope : Scope σ}
    (stable : scope.Stable)
    (offset : Int)
    (reason : Reason) :
    Confined scope (raiseAt offset reason) := by
  refine Confined.consult id (fun _ _ => rfl) fun interpreter _ => ?_
  split
  · refine .bind (.change (fun changed held => ?_) (fun _ _ _ _ => rfl) fun _ _ => rfl) fun _ => ?_
    · exact stable.control held _ changed.active changed.source changed.catchers
    · exact .of_same (fun _ => rfl) fun _ => rfl
  · exact .pure ()

/-- What is composed within a scope is confined to its reach, if nested code is. -/
theorem Composed.confined
    {scope : Scope σ}
    (stable : scope.Stable)
    {run : Run σ}
    (runConfined : ∀ code ownResult, Confined scope (run code ownResult))
    {action : Run σ → Eval σ α}
    (composed : Composed scope.toRealm action) :
    Confined scope (action run) := by
  induction composed with
  | pure value =>
      exact .pure value
  | bind _ _ firstConfined nextConfined =>
      exact firstConfined.bind nextConfined
  | consult view blind _ nextConfined =>
      exact .consult view (blind run) nextConfined
  | step update =>
      exact update.confined stable
  | record offset reason =>
      exact raiseAt_confined stable offset reason
  | drop _ =>
      exact .dropError stable
  | ask answer =>
      exact .of_same (fun _ => rfl) fun _ => rfl
  | observe view =>
      exact .of_same (fun _ => rfl) fun _ => rfl
  | halt stop _ _ =>
      exact .of_same (fun _ => rfl) fun _ => rfl
  | nested code ownResult =>
      exact runConfined code ownResult
  | @inFrame α frame down action reached reachedDown _ inside =>
      intro machine held
      obtain ⟨ended, confined⟩ := inside
        { machine with interpreter := { machine.interpreter with current := frame, down } }
        (stable.visit held reached fun id isDown => .inl (reachedDown id isDown))
      have whole : final (Eval.inFrame frame down (action run)) machine = _ :=
        final_ensuring _ _ _
      refine ⟨?_, confined.of_ensuring rfl rfl (fun _ => rfl) (fun _ _ => rfl) fun _ _ _ => rfl⟩
      rw [whole]
      exact stable.back held ended (.inl rfl)
  | @inNewFrame α frame action reached _ inside =>
      intro machine held
      obtain ⟨ended, confined⟩ := inside (pushed frame machine) (stable.push held reached)
      have whole : final (Eval.inNewFrame frame (action run)) machine = _ :=
        final_ensuring _ _ _
      refine ⟨?_, confined.inNewFrame (stable.fresh held)⟩
      rw [whole]
      exact stable.back held (stable.release ended _) (.inr rfl)
  | runWatch frame code reached =>
      intro machine held
      simp only [Eval.runWatch]
      split
      · have runs : Confined scope (do let _ ← run code true) :=
          (runConfined code true).bind fun _ => .pure ()
        obtain ⟨ended, confined⟩ := runs
          { machine with interpreter := { machine.interpreter with current := frame } }
          (stable.visit held reached fun _ isDown => .inr isDown)
        have whole := final_ensuring (do let _ ← run code true)
          (fun after => { after with interpreter :=
            { after.interpreter with current := machine.interpreter.current } })
          { machine with interpreter := { machine.interpreter with current := frame } }
        refine ⟨?_, confined.of_ensuring rfl rfl (fun _ => rfl) (fun _ _ => rfl) fun _ _ _ => rfl⟩
        exact whole ▸ stable.back held ended (.inr rfl)
      · exact Confined.pure () machine held
  | @inCatcher α action _ inside =>
      intro machine held
      obtain ⟨ended, confined⟩ := inside
        { machine with interpreter :=
          { machine.interpreter with catchers := machine.interpreter.catchers + 1 } }
        (stable.control held machine.interpreter.error machine.interpreter.active
          machine.interpreter.source _)
      have whole : final (Eval.inCatcher (action run)) machine = _ :=
        final_ensuring _ _ _
      refine ⟨?_, confined.of_ensuring rfl rfl (fun _ => rfl) (fun _ _ => rfl) fun _ _ _ => rfl⟩
      rw [whole]
      exact stable.control ended _ _ _ machine.interpreter.catchers
  | catching code _ _ _ _ refusedConfined passedConfined caughtConfined =>
      refine .bind .hasError fun pending => ?_
      split
      · exact refusedConfined
      · refine .bind (runConfined code false) fun value => .bind .hasError fun failed => ?_
        split
        · exact .bind (.dropError stable) fun _ => caughtConfined
        · exact passedConfined value
  | @jail parent clean context code _ _ =>
      refine .of_same (fun machine => ?_) fun machine => ?_
      · have whole :
            final (onInterpreter (jailInterpreter parent clean) (evaluateIn run context code))
              machine = _ :=
          final_ensuring _ _ _
        rw [whole]
      · exact onInterpreter_veiled _ _ machine

/-! ## Scripts -/

/-- A script is confined if the code that it runs is. -/
theorem script_confined
    {scope : Scope σ}
    (stable : scope.Stable)
    {run : Run σ}
    (runConfined : ∀ code ownResult, Confined scope (run code ownResult))
    (rounds : Nat)
    (code : Text)
    (ownResult : Bool) :
    Confined scope (script run rounds code ownResult) := by
  intro machine held
  have body : Composed scope.toRealm _ :=
    .scriptBody rounds code ownResult machine.interpreter.active.isEmpty fun _ => stable.drops
  obtain ⟨ended, confined⟩ := body.confined stable runConfined (entered code machine)
    (stable.control held machine.interpreter.error _ _ machine.interpreter.catchers)
  have runs := script_apply run rounds code ownResult machine
  have veiledRuns := script_apply run rounds code ownResult (machine.veiled scope.reach)
  constructor
  · rw [final_script]
    exact stable.control ended _ _ _ _
  · exact confined.of_ensuring runs veiledRuns (fun _ => rfl) (fun _ _ => rfl) fun _ _ _ => rfl

/-- Every evaluation is confined to the reach of its scope. -/
theorem evaluate_confined
    {scope : Scope σ}
    (stable : scope.Stable)
    (fuel : Nat) :
    ∀ (code : Text) (ownResult : Bool), Confined scope (evaluate fuel code ownResult) := by
  induction fuel with
  | zero =>
      exact fun _ _ => .of_same (fun _ => rfl) fun _ => rfl
  | succ fuel inductionHypothesis =>
      exact script_confined stable inductionHypothesis fuel

/-! ## Calls -/

/-- A call of a script function is confined to itself, whatever frame it comes from. -/
theorem callScript_confined
    (fuel : Nat)
    (id : FunctionId)
    (name : Text)
    (parameters : List Text)
    (body : Text)
    (arguments : List Text)
    {machine : Machine σ}
    (offers : machine.interpreter.OffersOnly Definition.StaysWithin) :
    ConfinedAt (calleeReach machine.interpreter.frames.size)
      (callScript (evaluate fuel) id name parameters body arguments) machine := by
  have inner : Composed (Scope.callee machine.interpreter.frames.size).toRealm fun run : Run σ =>
      setVariables run .fresh (bindings parameters arguments) >>= fun _ => run body true :=
    .bind (.setVariables ..) fun _ => .nested ..
  let logged : Machine σ := final
    (log "call function" [("name", .text name), ("args", .number arguments.length)]) machine
  have starts : (pushed { parent := some machine.interpreter.current, function := some id }
      logged).interpreter.InCall machine.interpreter.frames.size := by
    refine ⟨offers, calleeReach_of_le (Nat.le_refl _), ?_⟩
    exact Nat.le_trans (Nat.le_succ _) (Nat.le_of_eq (Array.size_push _).symm)
  have reached : calleeReach machine.interpreter.frames.size logged.interpreter.frames.size =
      true := calleeReach_of_le (Nat.le_refl _)
  have confined := (inner.confined (Scope.callee_stable _)
    (evaluate_confined (Scope.callee_stable _) fuel) _ starts).2.inNewFrame reached
  exact ⟨confined.hidden, confined.blind⟩

/-- The first word of a command names the function that is called. -/
theorem dispatch_of_script
    (run : Run σ)
    (rounds : Nat)
    {name : Text}
    (arguments : List Text)
    {machine : Machine σ}
    {id : FunctionId}
    {title : Text}
    {parameters : List Text}
    {body : Text}
    (named : machine.interpreter.commands.get? name = some id)
    (found : machine.interpreter.function? id = some ⟨title, .script parameters body⟩) :
    dispatch run rounds (name :: arguments) machine =
      callScript run id title parameters body arguments machine := by
  simp only [dispatch, List.headD_cons, List.tail_cons, interpreter_bind_apply, named, found]

/--
Calling a script function is confined to the frames that the call makes, and to the root frame.
-/
theorem dispatch_confined
    (fuel rounds : Nat)
    {name : Text}
    (arguments : List Text)
    {machine : Machine σ}
    (offers : machine.interpreter.OffersOnly Definition.StaysWithin)
    {title : Text}
    {parameters : List Text}
    {body : Text}
    (isScript : machine.interpreter.command? name = some ⟨title, .script parameters body⟩) :
    ConfinedAt (calleeReach machine.interpreter.frames.size)
      (dispatch (evaluate fuel) rounds (name :: arguments)) machine := by
  obtain ⟨id, named, found⟩ := Option.bind_eq_some_iff.mp isScript
  have calls := dispatch_of_script (evaluate fuel) rounds arguments named found
  have veiledCalls : dispatch (evaluate fuel) rounds (name :: arguments)
      (machine.veiled (calleeReach machine.interpreter.frames.size)) = _ :=
    dispatch_of_script (evaluate fuel) rounds arguments named found
  have confined := callScript_confined fuel id title parameters body arguments offers
  constructor
  · intro hidden isHidden
    rw [final, calls]
    exact confined.hidden hidden isHidden
  · rw [calls, veiledCalls, confined.blind]

/--
Where no command goes up or down the frames and none is a host's, a call of a script function
leaves every frame that was there before but the root frame as it is; and from a machine that
differs only in the variables of those frames the call ends alike: with the same value or stop, in
the same world, and with interpreters that still differ only in those variables.
-/
theorem call_isolated_from_callers
    (fuel rounds : Nat)
    (name : Text)
    (arguments : List Text)
    (machine : Machine σ)
    (offers : machine.interpreter.OffersOnly Definition.StaysWithin)
    {title : Text}
    {parameters : List Text}
    {body : Text}
    (isScript : machine.interpreter.command? name = some ⟨title, .script parameters body⟩) :
    (∀ id, id ≠ rootFrame → id < machine.interpreter.frames.size →
        (final (dispatch (evaluate fuel) rounds (name :: arguments))
            machine).interpreter.frames[id]? = machine.interpreter.frames[id]?) ∧
      ∀ other : Machine σ,
        other.veiled (calleeReach machine.interpreter.frames.size) =
          machine.veiled (calleeReach machine.interpreter.frames.size) →
        veilEnd (calleeReach machine.interpreter.frames.size)
            (dispatch (evaluate fuel) rounds (name :: arguments) other) =
          veilEnd (calleeReach machine.interpreter.frames.size)
            (dispatch (evaluate fuel) rounds (name :: arguments) machine) := by
  have confined := dispatch_confined fuel rounds arguments offers isScript
  constructor
  · intro id notRoot older
    refine confined.hidden id ?_
    simp [calleeReach, notRoot, Nat.not_le.mpr older]
  · intro other same
    have sameInterpreter :
        other.interpreter.veiled (calleeReach machine.interpreter.frames.size) =
          machine.interpreter.veiled (calleeReach machine.interpreter.frames.size) :=
      congrArg Machine.interpreter same
    have sameSize : other.interpreter.frames.size = machine.interpreter.frames.size := by
      simpa using congrArg (·.frames.size) sameInterpreter
    have otherOffers : other.interpreter.OffersOnly Definition.StaysWithin := by
      have veiledOffers : (machine.interpreter.veiled
          (calleeReach machine.interpreter.frames.size)).OffersOnly Definition.StaysWithin := offers
      rw [← sameInterpreter] at veiledOffers
      exact veiledOffers
    have otherIsScript :
        other.interpreter.command? name = some ⟨title, .script parameters body⟩ := by
      have veiledIsScript : (machine.interpreter.veiled
          (calleeReach machine.interpreter.frames.size)).command? name =
            some ⟨title, .script parameters body⟩ := isScript
      rw [← sameInterpreter] at veiledIsScript
      exact veiledIsScript
    have otherConfined := dispatch_confined fuel rounds arguments otherOffers otherIsScript
    rw [sameSize] at otherConfined
    rw [← otherConfined.blind, same, confined.blind]

/-- An interpreter with the command `set` and the function `f`, whose body is `set x 2`. -/
def setting : Interpreter Unit :=
  (({} : Interpreter Unit).define [0x73, 0x65, 0x74] (.builtin .setVariable)).define [0x66]
    (.script [] [0x73, 0x65, 0x74, 0x20, 0x78, 0x20, 0x32])

/-- That interpreter in a frame below the root with some variables. -/
def settingBelow (locals : Table Variable) : Machine Unit where
  interpreter :=
    { setting with
      frames := #[{}, { parent := some rootFrame, bindings := locals }]
      current := 1 }
  world := { host := () }

/-- A variable `x` of the frame below the root. -/
def oneLocal : Table Variable :=
  ⟨[([0x78], { name := [0x78], owner := 1, value := [0x31] })]⟩

/--
A function assigns a variable that its caller has as well: that of the caller keeps its value, and
without it the call does the same.
-/
theorem call_isolated_from_callers_setting :
    (final (dispatch (evaluate 2) 2 [[0x66]]) (settingBelow oneLocal)).interpreter.frames[1]? =
        some { parent := some rootFrame, bindings := oneLocal } ∧
      veilEnd (calleeReach 2) (dispatch (evaluate 2) 2 [[0x66]] (settingBelow {})) =
        veilEnd (calleeReach 2) (dispatch (evaluate 2) 2 [[0x66]] (settingBelow oneLocal)) := by
  have offers : (settingBelow oneLocal).interpreter.OffersOnly
      Definition.StaysWithin := by
    have empty : ({} : Interpreter Unit).OffersOnly Definition.StaysWithin :=
      fun _ member => nomatch member
    have sets : Definition.StaysWithin (σ := Unit) (.builtin .setVariable) :=
      ⟨by decide, by decide⟩
    exact (empty.define _ sets).define _ True.intro
  obtain ⟨kept, blind⟩ := call_isolated_from_callers 2 2 [0x66] []
    (settingBelow oneLocal) offers rfl
  exact ⟨kept 1 (by decide) (by decide), blind (settingBelow {}) rfl⟩

end Eval

end LittleScript
