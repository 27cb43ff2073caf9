import LittleScript.Proofs.Moves
import LittleScript.Proofs.PendingResult
import LittleScript.Proofs.TrailingBlank

namespace LittleScript

/-!
# Watches and pending results

The watch of a variable is code that owns the result of the frame that holds the variable.  Before
it starts the frame is no longer being left, and when it ends it takes what is pending there, also
what the code that made the assignment had provided.  So a watched assignment leaves nothing pending
in the frame of its variable, and one without a watch leaves there what it found.
-/

open Eval.Composed (assignedFrame assigned?)

variable {σ : Type}

/-- What is pending in a frame: the value that it provides, and whether its code is being left. -/
def Frame.pending (frame : Frame) : Option Text × Bool :=
  (frame.result, frame.stopping)

namespace Interpreter

theorem clearAt_iff
    {interpreter : Interpreter σ}
    {id : FrameId} :
    interpreter.ClearAt id ↔ (interpreter.frame id).pending = (none, false) := by
  rw [ClearAt, Frame.pending, Prod.mk.injEq]

/-- Putting a variable into a frame leaves what is pending in every frame. -/
theorem pending_putVariable
    (interpreter : Interpreter σ)
    (owner : FrameId)
    (name : Text)
    (entry : Variable)
    (id : FrameId) :
    ((interpreter.putVariable owner name entry).frame id).pending =
      (interpreter.frame id).pending := by
  rw [putVariable, frame_updateFrame]
  split
  · rfl
  · rfl

/-- Only a frame that exists holds variables. -/
theorem lt_size_of_get?
    {interpreter : Interpreter σ}
    {id : FrameId}
    {name : Text}
    {found : Variable}
    (held : (interpreter.frame id).bindings.get? name = some found) :
    id < interpreter.frames.size := by
  rcases Nat.lt_or_ge id interpreter.frames.size with inside | outside
  · exact inside
  · have missing : interpreter.frame id = {} := by
      simp [frame, outside]
    rw [missing] at held
    cases held

end Interpreter

namespace Eval

/-- The frame of a variable that an assignment finds exists. -/
theorem lt_size_of_assigned?
    {mode : Mode}
    {name : Text}
    {interpreter : Interpreter σ}
    {target : FrameId × Variable}
    (known : assigned? mode name interpreter = some target) :
    target.1 < interpreter.frames.size := by
  rw [assigned?] at known
  split at known
  · obtain ⟨found, held, rfl⟩ := Option.map_eq_some_iff.mp known
    exact Interpreter.lt_size_of_get? held
  · rw [Interpreter.lookup?] at known
    split at known
    · rename_i held
      cases known
      exact Interpreter.lt_size_of_get? held
    · obtain ⟨found, held, rfl⟩ := Option.map_eq_some_iff.mp known
      exact Interpreter.lt_size_of_get? held

/-- A watch that has run leaves nothing pending in its frame. -/
theorem runWatch_clears
    (fuel : Nat)
    {frame : FrameId}
    {code : Text}
    (watched : code ≠ [])
    {machine after : Machine σ}
    (free : machine.interpreter.HostFree)
    (present : frame < machine.interpreter.frames.size)
    (ran : runWatch (evaluate fuel) frame code machine = .ok () after) :
    after.interpreter.ClearAt frame := by
  have notEmpty : (!code.isEmpty) = true := by
    simpa using watched
  rw [runWatch, if_pos notEmpty, inspect_bind_apply, change_bind_apply] at ran
  obtain ⟨ended, ranWatch, rfl⟩ := ensuring_eq_ok ran
  obtain ⟨value, watchEnded, ranCode, isEnded⟩ := bind_eq_ok ranWatch
  cases isEnded
  exact evaluate_clears fuel code (by exact free) (by exact present) ranCode

/-- What an assignment does behind the storing leaves pending what was, unless a watch runs. -/
theorem afterStoring_pending
    (fuel : Nat)
    (name : Text)
    {target : Option (FrameId × Variable)}
    {stored held : Option Text}
    {machine after : Machine σ}
    (free : machine.interpreter.HostFree)
    {frame : FrameId}
    (here : ∀ found, target = some found →
      found.1 = frame ∧ frame < machine.interpreter.frames.size)
    (ran : afterStoring (evaluate fuel) name target stored machine = .ok held after) :
    (after.interpreter.frame frame).pending =
      if held.isSome ∧ (target.map fun found => found.2.watch).getD [] ≠ [] then (none, false)
      else (machine.interpreter.frame frame).pending := by
  cases stored with
  | none =>
      cases ran
      simp
  | some stored =>
      cases target with
      | none =>
          cases ran
          simp
      | some found =>
          obtain ⟨owner, existing⟩ := found
          obtain ⟨rfl, present⟩ := here _ rfl
          obtain ⟨_, watchedOver, ranWatch, looked⟩ := bind_eq_ok ran
          cases looked
          by_cases watched : existing.watch = []
          · rw [watched] at ranWatch
            cases ranWatch
            simp [watched]
          · have cleared := runWatch_clears fuel watched free present ranWatch
            simpa [watched] using Interpreter.clearAt_iff.mp cleared

/-- What an assignment leaves pending in the frame of its variable. -/
theorem setVariable_pending
    (fuel : Nat)
    {name : Text}
    (value : Text)
    {mode : Mode}
    (notFresh : mode ≠ .fresh)
    {machine after : Machine σ}
    (free : machine.interpreter.HostFree)
    {held : Option Text}
    (ran : setVariable (evaluate fuel) name value mode machine = .ok held after) :
    (after.interpreter.frame (owner mode name machine.interpreter)).pending =
      if held.isSome ∧ ownWatch mode name machine.interpreter ≠ [] then (none, false)
      else (machine.interpreter.frame (owner mode name machine.interpreter)).pending := by
  cases unnamed : name.isEmpty with
  | true =>
      simp only [setVariable, unnamed, if_true] at ran
      cases ran
      simp
  | false =>
      rw [setVariable_apply _ unnamed value notFresh] at ran
      obtain ⟨stored, between, ranStore, ranAfter⟩ := bind_eq_ok ran
      have frameOfTarget : ∀ found, assigned? mode name machine.interpreter = some found →
          found.1 = owner mode name machine.interpreter ∧
            owner mode name machine.interpreter < machine.interpreter.frames.size := by
        intro found known
        have isOwner : owner mode name machine.interpreter = found.1 := by
          rw [owner, known]
          rfl
        exact ⟨isOwner.symm, isOwner ▸ lt_size_of_assigned? known⟩
      obtain ⟨world, -, vetoed | ⟨put, isPut⟩⟩ := store_cases
        (owner mode name machine.interpreter) name value machine
      · rw [vetoed] at ranStore
        cases ranStore
        cases ranAfter
        simp
      · rw [isPut] at ranStore
        cases ranStore
        have behind := afterStoring_pending fuel name (by exact free)
          (fun found known => by
            simpa [Interpreter.putVariable, Interpreter.updateFrame] using
              frameOfTarget found known)
          ranAfter
        rw [behind, Interpreter.pending_putVariable]
        rfl

/--
An assignment that stores its value clears what is pending in the frame of the variable if the
variable is watched, whatever the watch does, and otherwise leaves it as it is.  So it keeps a
pending result only where there is no watch or where nothing was pending.
-/
theorem assignment_clears_pending_if_watched
    (fuel : Nat)
    (name value : Text)
    {mode : Mode}
    (notFresh : mode ≠ .fresh)
    {machine after : Machine σ}
    (free : machine.interpreter.HostFree)
    {held : Option Text}
    (ran : setVariable (evaluate fuel) name value mode machine = .ok held after) :
    ((after.interpreter.frame (owner mode name machine.interpreter)).pending =
      if held.isSome ∧ ownWatch mode name machine.interpreter ≠ [] then (none, false)
      else (machine.interpreter.frame (owner mode name machine.interpreter)).pending) ∧
    ((after.interpreter.frame (owner mode name machine.interpreter)).pending =
        (machine.interpreter.frame (owner mode name machine.interpreter)).pending ↔
      held = none ∨ ownWatch mode name machine.interpreter = [] ∨
        (machine.interpreter.frame (owner mode name machine.interpreter)).pending =
          (none, false)) := by
  have leaves := setVariable_pending fuel value notFresh free ran
  refine ⟨leaves, ?_⟩
  rw [leaves]
  cases held with
  | none =>
      simp
  | some held =>
      by_cases watched : ownWatch mode name machine.interpreter = []
      · simp [watched]
      · simp [watched, eq_comm]

/-- A machine on which the root frame provides a result and holds a watched variable. -/
def providingWatched : Machine Unit where
  interpreter :=
    { (Interpreter.fresh {} {} : Interpreter Unit) with
      frames := #[{
        bindings := Table.insert {} [0x78]
          { name := [0x78], owner := rootFrame, value := [], watch := Text.ofString "quote w" }
        result := some [0x76] }] }
  world := { host := () }

/-- A pending result is gone once a watched variable of its frame is assigned. -/
theorem assignment_clears_pending_if_watched_providing :
    (providingWatched.interpreter.frame rootFrame).pending = (some [0x76], false) ∧
      ((final (setVariable (evaluate 2) [0x78] [0x31] .visible)
        providingWatched).interpreter.frame rootFrame).pending = (none, false) := by
  refine ⟨by decide +kernel, ?_⟩
  have free : providingWatched.interpreter.HostFree :=
    (Interpreter.HostFree.fresh {} {}).withFrames _
  have isStored :
      (match setVariable (evaluate 2) [0x78] [0x31] .visible providingWatched with
        | .ok held _ => held
        | .error _ _ => none) = some [0x31] := by
    decide +kernel
  have isOwner : owner .visible [0x78] providingWatched.interpreter = rootFrame := by
    decide +kernel
  have watched : ownWatch .visible [0x78] providingWatched.interpreter ≠ [] := by
    decide +kernel
  cases ran : setVariable (evaluate 2) [0x78] [0x31] .visible providingWatched with
  | error stop after =>
      rw [ran] at isStored
      cases isStored
  | ok held after =>
      rw [ran] at isStored
      have leaves := (assignment_clears_pending_if_watched 2 [0x78] [0x31] (by simp) free ran).1
      rw [isOwner, if_pos ⟨by simp [isStored], watched⟩] at leaves
      rw [final_of_ok ran, leaves]

/-- A function that provides a result before it assigns a variable of its own. -/
def providingFunction : Text :=
  Text.ofString "func f {} {local x; watch x {quote w}; result v; set x 1}; f"

/-- The same function without the watch. -/
def providingUnwatched : Text :=
  Text.ofString "func f {} {local x; result v; set x 1}; f"

/-- A function that has provided a result yields another value where it assigns a watched variable. -/
theorem watch_takes_provided_result :
    unfailed? (evaluate 4 providingFunction true) (Machine.start () {} {}) = some [0x31] ∧
      unfailed? (evaluate 4 providingUnwatched true) (Machine.start () {} {}) = some [0x76] :=
  ⟨by decide +kernel, by decide +kernel⟩

end Eval

end LittleScript
