import LittleScript.Proofs.PendingResult
import LittleScript.Proofs.Serving

namespace LittleScript

/-!
# The tree of frames

Every frame but the root one has a parent, which was made before it, and evaluation always is in one
of the frames.  That holds of new interpreters and jails, and every run keeps it; so it holds of
every machine that a host gets to without commands of its own.
-/

variable {σ : Type}

/-- The frames of an interpreter are a tree, and evaluation is in it. -/
structure Interpreter.WellFramed (interpreter : Interpreter σ) : Prop where
  rooted : 0 < interpreter.frames.size
  older : ∀ {id parent : FrameId}, (interpreter.frame id).parent = some parent → parent < id
  parented : ∀ {id : FrameId}, id < interpreter.frames.size → id ≠ rootFrame →
    (interpreter.frame id).parent.isSome = true
  current : interpreter.current < interpreter.frames.size
  down : ∀ {id : FrameId}, interpreter.down = some id → id < interpreter.frames.size

/-- Leaving a frame goes to its parent; at the root nothing happens. -/
theorem Eval.popFrame_apply
    (machine : Machine σ) :
    popFrame machine =
      match machine.interpreter.currentFrame.parent with
      | none => .ok () machine
      | some parent =>
          .ok () (frameRecord "pop frame" { machine with interpreter :=
            { machine.interpreter.updateCurrent Frame.release with current := parent } }) := by
  rw [popFrame, interpreter_bind_apply]
  cases machine.interpreter.currentFrame.parent <;> rfl

namespace Interpreter.WellFramed

variable {interpreter : Interpreter σ}

/-- The one frame of a new interpreter. -/
theorem of_new
    (isNew : interpreter.frames = #[{}])
    (atRoot : interpreter.current = rootFrame)
    (notUp : interpreter.down = none) :
    interpreter.WellFramed where
  rooted := by simp [isNew]
  older {id parent} isParent := by
    cases id with
    | zero => simp [frame, isNew] at isParent
    | succ id => simp [frame, isNew] at isParent
  parented {id} inside notRoot := by
    have isRoot : id = rootFrame := by simpa [isNew, rootFrame] using inside
    exact absurd isRoot notRoot
  current := by simp [isNew, atRoot, rootFrame]
  down isDown := by simp [notUp] at isDown

/-- Evaluation can move to any frame. -/
theorem visit
    (framed : interpreter.WellFramed)
    {frame : FrameId}
    {down : Option FrameId}
    (inside : frame < interpreter.frames.size)
    (insideDown : ∀ {id : FrameId}, down = some id → id < interpreter.frames.size) :
    ({ interpreter with current := frame, down } : Interpreter σ).WellFramed where
  rooted := framed.rooted
  older := framed.older
  parented := framed.parented
  current := inside
  down := insideDown

theorem of_sameParents
    (framed : interpreter.WellFramed)
    {after : Interpreter σ}
    (same : interpreter.SameParents after)
    (current : after.current = interpreter.current)
    (down : after.down = interpreter.down) :
    after.WellFramed where
  rooted := by rw [same.size]; exact framed.rooted
  older {id parent} isParent := framed.older ((same.parent id).symm.trans isParent)
  parented {id} inside notRoot := by
    rw [same.parent id]
    exact framed.parented (same.size ▸ inside) notRoot
  current := by rw [current, same.size]; exact framed.current
  down isDown := by
    rw [same.size]
    exact framed.down (down.symm.trans isDown)

/-- Evaluation can go to frames of the tree only. -/
theorem borders_lt
    (framed : interpreter.WellFramed)
    {frame : FrameId}
    (borders : interpreter.Borders frame) :
    frame < interpreter.frames.size := by
  rcases borders with rfl | rfl | isParent | isDown
  · exact framed.rooted
  · exact framed.current
  · exact Nat.lt_trans (framed.older isParent) framed.current
  · exact framed.down isDown

/-- A new frame below one that is there is the new place of evaluation. -/
theorem addFrame
    (framed : interpreter.WellFramed)
    {added : Frame}
    {parent : FrameId}
    (isParent : added.parent = some parent)
    (inside : parent < interpreter.frames.size) :
    ({ (interpreter.addFrame added).2 with
      current := interpreter.frames.size } : Interpreter σ).WellFramed := by
  have frameOf : ∀ id, ({ (interpreter.addFrame added).2 with
      current := interpreter.frames.size } : Interpreter σ).frame id =
        if id = interpreter.frames.size then added else interpreter.frame id :=
    fun id => interpreter.frame_addFrame id added
  have size : ({ (interpreter.addFrame added).2 with
      current := interpreter.frames.size } : Interpreter σ).frames.size =
        interpreter.frames.size + 1 := Array.size_push added
  constructor
  case rooted =>
    rw [size]
    exact Nat.succ_pos _
  case older =>
    intro id other isOther
    rw [frameOf] at isOther
    split at isOther
    case isTrue isNew =>
      rw [isParent] at isOther
      cases isOther
      rwa [isNew]
    case isFalse => exact framed.older isOther
  case parented =>
    intro id within notRoot
    rw [size] at within
    rw [frameOf]
    split
    case isTrue => simp [isParent]
    case isFalse isOld =>
      exact framed.parented (Nat.lt_of_le_of_ne (Nat.le_of_lt_succ within) isOld) notRoot
  case current =>
    rw [size]
    exact Nat.lt_succ_self _
  case down =>
    intro id isDown
    rw [size]
    exact Nat.lt_succ_of_lt (framed.down isDown)

/-- Evaluation comes back to a frame that was there before. -/
theorem comeBack
    (framed : interpreter.WellFramed)
    {after : Interpreter σ}
    (grown : interpreter.frames.size ≤ after.frames.size)
    (framedAfter : after.WellFramed)
    {below : Option FrameId}
    (isBelow : below = interpreter.down ∨ below = after.down) :
    ({ after with current := interpreter.current, down := below } : Interpreter σ).WellFramed := by
  refine framedAfter.visit (Nat.lt_of_lt_of_le framed.current grown) fun isDown => ?_
  rcases isBelow with isBefore | isAfter
  · exact Nat.lt_of_lt_of_le (framed.down (isBefore.symm.trans isDown)) grown
  · exact framedAfter.down (isAfter.symm.trans isDown)

/-- A frame is released, and evaluation goes on in a frame that is there. -/
theorem release
    (framed : interpreter.WellFramed)
    (id : FrameId)
    {next : FrameId}
    (inside : next < interpreter.frames.size) :
    ({ interpreter.updateFrame id Frame.release with current := next } :
      Interpreter σ).WellFramed := by
  have releases := SameParents.release interpreter id
  have released := framed.of_sameParents releases rfl rfl
  exact released.visit (Nat.lt_of_lt_of_eq inside releases.size.symm) released.down

/-- What an action has left in a new frame, which is released, is a tree. -/
theorem popped
    {machine after : Machine σ}
    (framed : machine.interpreter.WellFramed)
    (framedAfter : after.interpreter.WellFramed)
    (grown : machine.interpreter.frames.size ≤ after.interpreter.frames.size) :
    (Eval.popped machine after).interpreter.WellFramed :=
  framedAfter.release _ (Nat.lt_of_lt_of_le framed.current grown)

/-- Leaving the current frame goes to its parent; the root frame stays. -/
theorem popFrame
    {machine : Machine σ}
    (framed : machine.interpreter.WellFramed) :
    (Eval.final Eval.popFrame machine).interpreter.WellFramed := by
  rw [Eval.final, Eval.popFrame_apply]
  cases isParent : machine.interpreter.currentFrame.parent with
  | none =>
      exact framed
  | some parent =>
      exact framed.release _ (Nat.lt_trans (framed.older isParent) framed.current)

end Interpreter.WellFramed

namespace Eval

/-- A frame that is pushed is one more. -/
theorem size_pushed
    (frame : Frame)
    (machine : Machine σ) :
    (pushed frame machine).interpreter.frames.size = machine.interpreter.frames.size + 1 :=
  Array.size_push frame

/-- The parent of a callee's frame is the root or the caller. -/
theorem Callee.parent_frame
    (callee : Callee)
    (caller : FrameId) :
    ∃ parent, (callee.frame caller).parent = some parent ∧
      (parent = rootFrame ∨ parent = caller) := by
  cases callee with
  | isolated => exact ⟨rootFrame, rfl, .inl rfl⟩
  | function id => exact ⟨caller, rfl, .inr rfl⟩
  | catcher name => exact ⟨caller, rfl, .inr rfl⟩

/-- A move leaves the frames a tree. -/
theorem Move.wellFramed
    {realm : Realm σ}
    {before after : Machine σ}
    (move : Move realm before after)
    (framed : before.interpreter.WellFramed) :
    after.interpreter.WellFramed := by
  cases move with
  | aside same =>
      exact framed.of_sameParents ⟨same.size, fun id => (same.frame id).parent⟩ same.current
        same.down
  | rename moved =>
      obtain ⟨functions, commands, rfl⟩ := Interpreter.rename_eq moved
      exact framed.of_sameParents (.of_frames rfl) rfl rfl
  | store frame name value _ =>
      obtain ⟨stored, frames, world, ran, same, -⟩ := store_apply frame name value before
      rw [final_of_ok ran]
      exact framed.of_sameParents same rfl rfl
  | declare name _ _ =>
      exact framed.of_sameParents (.putVariable ..) rfl rfl
  | watch name code _ =>
      obtain ⟨frames, ran, same⟩ := watch_apply name code before
      rw [final_of_ok ran]
      exact framed.of_sameParents same rfl rfl
  | visit borders bordersBelow =>
      exact framed.visit (framed.borders_lt borders) fun isDown =>
        framed.borders_lt (bordersBelow _ isDown)
  | push callee _ _ =>
      obtain ⟨parent, isParent, isRoot | isCaller⟩ :=
        callee.parent_frame before.interpreter.current
      · exact framed.addFrame isParent (isRoot ▸ framed.rooted)
      · exact framed.addFrame isParent (isCaller ▸ framed.current)
  | _ =>
      exact framed.of_sameParents (.of_frames rfl) rfl rfl

/-- The scope of interpreters without host commands whose frames are a tree. -/
def Scope.framed : Scope σ where
  holds interpreter := interpreter.HostFree ∧ interpreter.WellFramed
  reach _ := true
  allowed _ := True
  drops := True
  free held := held.1
  root := rfl
  current _ := rfl
  offers _ _ _ := True.intro
  up _ _ _ _ _ := rfl
  down _ _ _ _ _ := rfl

/-- From one machine to another no frame goes away, and a tree of frames stays one. -/
def Framing (before after : Machine σ) : Prop :=
  before.interpreter.frames.size ≤ after.interpreter.frames.size ∧
    (Scope.framed.holds before.interpreter → Scope.framed.holds after.interpreter)

theorem leading_framing :
    Leading (Scope.framed (σ := σ)).toRealm Framing fun _ _ => True where
  refl _ := ⟨Nat.le_refl _, id⟩
  trans first second := ⟨Nat.le_trans first.1 second.1, second.2 ∘ first.2⟩
  holds related := related.2
  move held move :=
    ⟨move.size_le, fun _ => ⟨move.hostFree held.1, move.wellFramed held.2⟩⟩
  back held related isBelow :=
    ⟨Nat.le_refl _, fun heldAfter =>
      ⟨heldAfter.1, held.2.comeBack related.1 heldAfter.2 isBelow⟩⟩
  pop {before after frame} held related := by
    have sized := (Interpreter.SameParents.release after.interpreter
      before.interpreter.frames.size).size
    have grown := Nat.le_trans (Nat.le_succ _) (size_pushed frame before ▸ related.1)
    exact ⟨Nat.le_of_eq sized.symm, fun heldAfter =>
      ⟨heldAfter.1, held.2.popped heldAfter.2 grown⟩⟩
  goesOnward _ := True.intro
  onwardTrans _ _ := True.intro

theorem through_framing
    (fuel : Nat) :
    Through (Scope.framed (σ := σ)).toRealm Framing (evaluate fuel) :=
  leading_framing.through_evaluate True.intro (fun _ _ _ _ _ _ _ => ⟨Nat.le_refl _, id⟩) fuel

/-- The frames of a jail are a tree. -/
theorem framed_jailMachine
    (clean : Bool)
    {machine : Machine σ}
    (free : machine.interpreter.HostFree) :
    Scope.framed.holds (jailMachine clean machine).interpreter := by
  obtain ⟨functions, commands, system, isJail⟩ := machine.interpreter.jail_eq clean
  refine ⟨free.jail clean, ?_⟩
  rw [jailMachine, isJail]
  exact .of_new rfl rfl rfl

end Eval

/-! ## Machines of a host -/

/--
A machine that a host gets to without commands of its own: it configures an interpreter, gives it
callbacks and changes the world, evaluates code, and makes and leaves frames in between.
-/
inductive Machine.Reachable : Machine σ → Prop where
  | configured {configuration : Configuration} {callbacks : Callbacks σ}
      {interpreter : Interpreter σ} (world : World σ) :
      configuration.interpreter callbacks = .ok interpreter →
      Reachable ⟨interpreter, world⟩
  | surrounded {machine : Machine σ} (callbacks : Callbacks σ) (world : World σ) :
      Reachable machine →
      Reachable ⟨{ machine.interpreter with callbacks }, world⟩
  | evaluated {machine : Machine σ} (fuel : Nat) (context : Context) (code : Text) :
      Reachable machine →
      Reachable (machine.perform (Eval.evaluateIn (Eval.evaluate fuel) context code)).2
  | pushed {machine : Machine σ} :
      Reachable machine →
      Reachable (machine.perform Eval.pushFrame).2
  | popped {machine : Machine σ} :
      Reachable machine →
      Reachable (machine.perform Eval.popFrame).2

/-- A configured interpreter has its commands, and one frame. -/
theorem Configuration.wellFramed
    {configuration : Configuration}
    {callbacks : Callbacks σ}
    {interpreter : Interpreter σ}
    (configured : configuration.interpreter callbacks = .ok interpreter) :
    interpreter.WellFramed := by
  have fresh : ∀ limits, (Interpreter.fresh limits callbacks).WellFramed := by
    intro limits
    obtain ⟨functions, commands, system, isFresh⟩ := Interpreter.fresh_eq limits callbacks
    rw [isFresh]
    exact .of_new rfl rfl rfl
  have setDollar : ∀ {interpreter : Interpreter σ} (dollar : Text), interpreter.WellFramed →
      ({ interpreter with dollar } : Interpreter σ).WellFramed :=
    fun _ framed => framed.of_sameParents (.of_frames rfl) rfl rfl
  obtain ⟨limits, dollar, rfl⟩ := Configuration.interpreter_eq configured
  exact setDollar dollar (fresh limits)

/-- Between evaluations an interpreter is idle, and its frames are a tree. -/
theorem Machine.Reachable.framed
    {machine : Machine σ}
    (reachable : machine.Reachable) :
    machine.interpreter.active = [] ∧ Eval.Scope.framed.holds machine.interpreter := by
  induction reachable with
  | configured world configured =>
      have atRest := Configuration.atRest configured
      exact ⟨atRest.idle, atRest.free, Configuration.wellFramed configured⟩
  | surrounded callbacks world _ inductionHypothesis =>
      obtain ⟨idle, free, framed⟩ := inductionHypothesis
      exact ⟨idle, free, framed.of_sameParents (.of_frames rfl) rfl rfl⟩
  | @evaluated machine fuel context code _ inductionHypothesis =>
      obtain ⟨idle, free, framed⟩ := inductionHypothesis
      have held : Eval.Scope.framed.holds
          (Eval.outermostCall context code machine).machine.interpreter :=
        ⟨free, framed.of_sameParents (.of_frames rfl) rfl rfl⟩
      have heldAfter := ((Eval.through_framing fuel).here code true held).2 held
      have control := Eval.control_evaluateIn fuel context code free
      rw [Eval.perform_snd]
      refine ⟨(congrArg Control.active control).trans idle, ?_⟩
      rw [Eval.final_evaluateIn]
      exact ⟨heldAfter.1, heldAfter.2.of_sameParents (.of_frames rfl) rfl rfl⟩
  | @pushed machine _ inductionHypothesis =>
      obtain ⟨idle, free, framed⟩ := inductionHypothesis
      exact ⟨idle, free, framed.addFrame rfl framed.current⟩
  | @popped machine _ inductionHypothesis =>
      obtain ⟨idle, free, framed⟩ := inductionHypothesis
      have framedAfter := framed.popFrame
      rw [Eval.perform_snd]
      rw [Eval.final, Eval.popFrame_apply] at framedAfter ⊢
      cases isParent : machine.interpreter.currentFrame.parent with
      | none => exact ⟨idle, free, framed⟩
      | some parent =>
          rw [isParent] at framedAfter
          exact ⟨idle, free, framedAfter⟩

end LittleScript
