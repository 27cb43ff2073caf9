import LittleScript.Proofs.Isolation
import LittleScript.Proofs.NestedCalls

namespace LittleScript

/-!
# Moves

What an assembled action does to its machine, one part at a time.  A move says all that is known
where it is made: which frame a variable is stored in and that the host was asked for a global one,
from where a frame is entered, for whom a frame is made.  A relation between machines that respects
every move, and coming back to a frame, holds across every run.
-/

variable {σ α β : Type}

/-- Two frames that differ at most in their result and in whether their code is being left. -/
structure Frame.SameShape (before after : Frame) : Prop where
  parent : after.parent = before.parent
  bindings : after.bindings = before.bindings
  function : after.function = before.function
  catching : after.catching = before.catching

theorem Frame.SameShape.refl
    (frame : Frame) :
    frame.SameShape frame :=
  ⟨rfl, rfl, rfl, rfl⟩

/-- The variables of a frame go by the names under which they are found, and belong to the frame. -/
def Table.OwnedBy (bindings : Table Variable) (id : FrameId) : Prop :=
  ∀ name entry, (name, entry) ∈ bindings.entries → entry.name = name ∧ entry.owner = id

theorem Table.OwnedBy.empty
    (id : FrameId) :
    (Table.empty : Table Variable).OwnedBy id :=
  fun _ _ member => nomatch member

/-- A variable with its name and its owner can join the others of a frame. -/
theorem Table.OwnedBy.insert
    {bindings : Table Variable}
    {id : FrameId}
    (owned : bindings.OwnedBy id)
    {name : Text}
    {entry : Variable}
    (isName : entry.name = name)
    (isOwner : entry.owner = id) :
    (bindings.insert name entry).OwnedBy id := by
  intro other held member
  rcases Table.mem_insertEntry member with isNew | wasThere
  · cases isNew
    exact ⟨isName, isOwner⟩
  · exact owned other held wasThere

/-- What is stored when the host gives this answer to the assignment of a value. -/
def Assignment.stored (value : Text) : Assignment → Option Text
  | veto => none
  | accept => some value
  | replace other => some other

namespace Interpreter

theorem frame_updateFrame
    (interpreter : Interpreter σ)
    (id other : FrameId)
    (change : Frame → Frame) :
    (interpreter.updateFrame id change).frame other =
      if id = other ∧ other < interpreter.frames.size then change (interpreter.frame other)
      else interpreter.frame other := by
  by_cases inside : other < interpreter.frames.size
  · simp [frame, updateFrame, inside, Array.getElem_modify]
  · simp [frame, updateFrame, inside]

theorem frame_addFrame
    (interpreter : Interpreter σ)
    (id : FrameId)
    (frame : Frame) :
    (interpreter.addFrame frame).2.frame id =
      if id = interpreter.frames.size then frame else interpreter.frame id := by
  simp only [Interpreter.frame, addFrame, Array.getD_eq_getD_getElem?, Array.getElem?_push]
  split <;> rfl

/--
Two interpreters that differ at most in control: in the evaluations that are active, the error that
is pending, the results of frames, the counts, the catcher and the dollar expansion.
-/
structure SameShape (before after : Interpreter σ) : Prop where
  limits : after.limits = before.limits
  callbacks : after.callbacks = before.callbacks
  current : after.current = before.current
  down : after.down = before.down
  functions : after.functions = before.functions
  commands : after.commands = before.commands
  system : after.system = before.system
  context : after.context = before.context
  size : after.frames.size = before.frames.size
  frame : ∀ id, (before.frame id).SameShape (after.frame id)

theorem SameShape.updateCurrent
    (interpreter : Interpreter σ)
    {change : Frame → Frame}
    (same : ∀ frame : Frame, frame.SameShape (change frame)) :
    interpreter.SameShape (interpreter.updateCurrent change) where
  limits := rfl
  callbacks := rfl
  current := rfl
  down := rfl
  functions := rfl
  commands := rfl
  system := rfl
  context := rfl
  size := Array.size_modify
  frame id := by
    rw [Interpreter.updateCurrent, frame_updateFrame]
    split
    · exact same _
    · exact .refl _

/-- Two interpreters with as many frames, each with the same parent. -/
structure SameParents (before after : Interpreter σ) : Prop where
  size : after.frames.size = before.frames.size
  parent : ∀ id, (after.frame id).parent = (before.frame id).parent

namespace SameParents

theorem of_frames
    {before after : Interpreter σ}
    (same : after.frames = before.frames) :
    before.SameParents after where
  size := congrArg Array.size same
  parent _ := by rw [frame, frame, same]

theorem updateFrame
    (interpreter : Interpreter σ)
    (id : FrameId)
    {change : Frame → Frame}
    (same : ∀ frame : Frame, (change frame).parent = frame.parent) :
    interpreter.SameParents (interpreter.updateFrame id change) where
  size := by simp [Interpreter.updateFrame]
  parent other := by
    rw [frame_updateFrame]
    split
    · exact same _
    · rfl

theorem putVariable
    (interpreter : Interpreter σ)
    (id : FrameId)
    (name : Text)
    (entry : Variable) :
    interpreter.SameParents (interpreter.putVariable id name entry) :=
  updateFrame interpreter id fun _ => rfl

theorem release
    (interpreter : Interpreter σ)
    (id : FrameId) :
    interpreter.SameParents (interpreter.updateFrame id Frame.release) :=
  updateFrame interpreter id fun _ => rfl

end SameParents

/-- The variable of a frame under a name; where there is none, a new one without a value. -/
def entryAt (interpreter : Interpreter σ) (id : FrameId) (name : Text) : Variable :=
  ((interpreter.frame id).bindings.get? name).getD { name, owner := id, value := [] }

/-- A frame to which evaluation can go from where it is. -/
def Borders (interpreter : Interpreter σ) (frame : FrameId) : Prop :=
  frame = rootFrame ∨ frame = interpreter.current ∨
    interpreter.currentFrame.parent = some frame ∨ interpreter.down = some frame

end Interpreter

namespace Eval

/-! ## Storing variables -/

/-- The value to store in a variable of a frame: for a global one what the host makes of it. -/
def approve (frame : FrameId) (name value : Text) : Eval σ (Option Text) :=
  if frame == rootFrame then mediate name value else pure (some value)

/-- Store a value in a variable of a frame, unless the host vetoes that. -/
def store (frame : FrameId) (name value : Text) : Eval σ (Option Text) := do
  match ← approve frame name value with
  | none => return none
  | some stored =>
      change fun interpreter =>
        interpreter.putVariable frame name { interpreter.entryAt frame name with value := stored }
      return some stored

/-- A host that handles assignments is asked, and its answer is obeyed. -/
theorem mediate_of_handled
    (name value : Text)
    {machine : Machine σ}
    {handle : Text → Text → World σ → Assignment × World σ}
    (handled : machine.interpreter.callbacks.setVariable = some handle) :
    mediate name value machine =
      .ok ((handle name value machine.world).1.stored value)
        { machine with world := (handle name value machine.world).2 } := by
  have asked : Eval.ask (handle name value) machine =
      .ok (handle name value machine.world).1
        { machine with world := (handle name value machine.world).2 } := rfl
  simp only [mediate, interpreter_bind_apply, handled]
  rw [bind_of_ok asked]
  cases (handle name value machine.world).1 with
  | veto => rfl
  | accept => rfl
  | replace other => rfl

theorem mediate_of_unhandled
    (name value : Text)
    {machine : Machine σ}
    (unhandled : machine.interpreter.callbacks.setVariable = none) :
    mediate name value machine = .ok (some value) machine := by
  simp only [mediate, interpreter_bind_apply, unhandled]
  rfl

/-- The host is asked about a global value; nothing else happens before a value is stored. -/
theorem approve_apply
    (frame : FrameId)
    (name value : Text)
    (machine : Machine σ) :
    ∃ answer world, approve frame name value machine = .ok answer { machine with world } ∧
      (world = machine.world ∨ ∃ handle,
        machine.interpreter.callbacks.setVariable = some handle ∧
          world = (handle name value machine.world).2) := by
  rw [approve]
  split
  · cases handled : machine.interpreter.callbacks.setVariable with
    | none =>
        exact ⟨_, _, mediate_of_unhandled name value handled, .inl rfl⟩
    | some handle =>
        exact ⟨_, _, mediate_of_handled name value handled, .inr ⟨handle, rfl, rfl⟩⟩
  · exact ⟨_, machine.world, rfl, .inl rfl⟩

/-- What storing a value comes to: the host vetoes it, or a variable is put into the frame. -/
theorem store_cases
    (frame : FrameId)
    (name value : Text)
    (machine : Machine σ) :
    ∃ world,
      (world = machine.world ∨ ∃ handle,
        machine.interpreter.callbacks.setVariable = some handle ∧
          world = (handle name value machine.world).2) ∧
      (store frame name value machine = .ok none { machine with world } ∨
        ∃ stored, store frame name value machine =
          .ok (some stored)
            ⟨machine.interpreter.putVariable frame name
              { machine.interpreter.entryAt frame name with value := stored }, world⟩) := by
  obtain ⟨answer, world, approved, asked⟩ := approve_apply frame name value machine
  refine ⟨world, asked, ?_⟩
  rw [store, bind_of_ok approved]
  cases answer with
  | none => exact .inl rfl
  | some stored => exact .inr ⟨stored, rfl⟩

/-- Storing a value changes frames only; the world changes at most by the host being asked. -/
theorem store_apply
    (frame : FrameId)
    (name value : Text)
    (machine : Machine σ) :
    ∃ stored frames world,
      store frame name value machine =
        .ok stored ⟨{ machine.interpreter with frames }, world⟩ ∧
      machine.interpreter.SameParents { machine.interpreter with frames } ∧
      (world = machine.world ∨ ∃ handle,
        machine.interpreter.callbacks.setVariable = some handle ∧
          world = (handle name value machine.world).2) := by
  obtain ⟨world, asked, vetoed | ⟨stored, put⟩⟩ := store_cases frame name value machine
  · exact ⟨none, machine.interpreter.frames, world, vetoed, .of_frames rfl, asked⟩
  · exact ⟨some stored, _, world, put, .putVariable _ frame name _, asked⟩

/-- Watching a variable changes frames only. -/
theorem watch_apply
    (name code : Text)
    (machine : Machine σ) :
    ∃ frames, watch name code machine =
        .ok () { machine with interpreter := { machine.interpreter with frames } } ∧
      machine.interpreter.SameParents { machine.interpreter with frames } := by
  cases known : machine.interpreter.visible? name with
  | none =>
      refine ⟨(machine.interpreter.putVariable machine.interpreter.current name
        { name, owner := machine.interpreter.current, value := [], watch := code }).frames, ?_,
        .putVariable ..⟩
      simp only [watch, change, known]
      rfl
  | some found =>
      refine ⟨(machine.interpreter.putVariable found.1 name
        { found.2 with watch := code }).frames, ?_, .putVariable ..⟩
      simp only [watch, change, known]
      rfl

/-- What an assignment does once its value is stored: it runs the watch of the variable. -/
def afterStoring (run : Run σ) (name : Text) (target : Option (FrameId × Variable)) :
    Option Text → Eval σ (Option Text)
  | none => return none
  | some stored =>
      match target with
      | none => return some stored
      | some (owner, existing) => do
          runWatch run owner existing.watch
          let held ← inspect fun interpreter =>
            match (interpreter.frame owner).bindings.get? name with
            | some held => held.value
            | none => stored
          return some held

open Composed (assignedFrame assigned?)

/-- The frame in which an assignment stores its value. -/
def owner (mode : Mode) (name : Text) (interpreter : Interpreter σ) : FrameId :=
  ((assigned? mode name interpreter).map Prod.fst).getD (assignedFrame mode interpreter)

/-- The watch of the variable to which an assignment stores its value. -/
def ownWatch (mode : Mode) (name : Text) (interpreter : Interpreter σ) : Text :=
  ((assigned? mode name interpreter).map fun found => found.2.watch).getD []

/-- An assignment finds the variable of the frame in which it stores its value. -/
theorem assigned?_eq
    (mode : Mode)
    (name : Text)
    (interpreter : Interpreter σ) :
    assigned? mode name interpreter =
      ((interpreter.frame (owner mode name interpreter)).bindings.get? name).map
        (owner mode name interpreter, ·) := by
  have own : ∀ frame : FrameId, assignedFrame mode interpreter = frame →
      assigned? mode name interpreter =
        ((interpreter.frame frame).bindings.get? name).map (frame, ·) →
      assigned? mode name interpreter =
        ((interpreter.frame (owner mode name interpreter)).bindings.get? name).map
          (owner mode name interpreter, ·) := by
    intro frame isFrame found
    have isOwner : owner mode name interpreter = frame := by
      rw [owner, found, isFrame]
      cases (interpreter.frame frame).bindings.get? name <;> rfl
    rw [isOwner, found]
  cases isOwn : mode == .own with
  | true =>
      refine own _ rfl ?_
      simp only [assigned?, isOwn, if_true]
  | false =>
      have looked : assigned? mode name interpreter =
          interpreter.lookup? (assignedFrame mode interpreter) name := by
        simp only [assigned?, isOwn, Bool.false_eq_true, if_false]
      rw [Interpreter.lookup?] at looked
      cases here : (interpreter.frame (assignedFrame mode interpreter)).bindings.get? name with
      | some found =>
          simp only [here] at looked
          exact own _ rfl (by rw [looked, here]; rfl)
      | none =>
          simp only [here] at looked
          cases global : (interpreter.frame rootFrame).bindings.get? name with
          | none =>
              rw [global] at looked
              exact own _ rfl (by rw [looked, here]; rfl)
          | some found =>
              rw [global] at looked
              have isOwner : owner mode name interpreter = rootFrame := by
                rw [owner, looked]
                rfl
              rw [isOwner, looked, global]

/-- The variable in which an assignment stores its value is the one that it finds, or a new one. -/
theorem entryAt_owner
    (mode : Mode)
    (name : Text)
    (interpreter : Interpreter σ) :
    interpreter.entryAt (owner mode name interpreter) name =
      ((assigned? mode name interpreter).map Prod.snd).getD
        { name, owner := owner mode name interpreter, value := [] } := by
  rw [Interpreter.entryAt, assigned?_eq]
  cases (interpreter.frame (owner mode name interpreter)).bindings.get? name <;> rfl

/-- The watch of that variable. -/
theorem watch_entryAt_owner
    (mode : Mode)
    (name : Text)
    (interpreter : Interpreter σ) :
    (interpreter.entryAt (owner mode name interpreter) name).watch =
      ownWatch mode name interpreter := by
  rw [entryAt_owner, ownWatch]
  cases assigned? mode name interpreter <;> rfl

/-- What an assignment does once its value is approved: it defines the variable or changes it. -/
def assignApproved (run : Run σ) (name : Text) (frame : FrameId)
    (target : Option (FrameId × Variable)) (stored : Option Text) : Eval σ (Option Text) := do
  match stored, target with
  | none, _ => return none
  | some stored, none =>
      defineVariable frame name stored
      return some stored
  | some stored, some (owner, existing) =>
      return some (← assign run owner name stored existing)

/-- An assignment stores its value and then runs the watch of the variable. -/
theorem setVariable_apply
    (run : Run σ)
    {name : Text}
    (named : name.isEmpty = false)
    (value : Text)
    {mode : Mode}
    (notFresh : mode ≠ .fresh)
    (machine : Machine σ) :
    setVariable run name value mode machine =
      (store (owner mode name machine.interpreter) name value >>=
        afterStoring run name (assigned? mode name machine.interpreter)) machine := by
  have isNotFresh : (mode == .fresh) = false := by
    cases mode with
    | fresh => exact absurd rfl notFresh
    | _ => rfl
  have asAssignment : setVariable run name value mode machine =
      Composed.assignIn run name value mode (assignedFrame mode machine.interpreter)
        (assigned? mode name machine.interpreter) machine := by
    simp only [setVariable, named]
    rfl
  have approvesFirst : ∀ frame target,
      Composed.assignIn run name value mode frame target =
        approve ((target.map Prod.fst).getD frame) name value >>=
          assignApproved run name frame target := by
    intro frame target
    simp only [Composed.assignIn, isNotFresh, Bool.false_eq_true, if_false, approve]
    split <;> rfl
  obtain ⟨answer, world, approved, -⟩ :=
    approve_apply (owner mode name machine.interpreter) name value machine
  rw [asAssignment, approvesFirst, ← owner, store, bind_assoc, bind_of_ok approved,
    bind_of_ok approved]
  have isEntry := entryAt_owner mode name machine.interpreter
  cases answer with
  | none =>
      rfl
  | some stored =>
      cases known : assigned? mode name machine.interpreter with
      | none =>
          have isFrame : owner mode name machine.interpreter =
              assignedFrame mode machine.interpreter := by
            rw [owner, known]
            rfl
          rw [known, isFrame] at isEntry
          simp only [assignApproved, isFrame, defineVariable, bind_assoc, pure_bind,
            change_bind_apply, isEntry]
          rfl
      | some found =>
          have isOwner : owner mode name machine.interpreter = found.1 := by
            rw [owner, known]
            rfl
          rw [known, isOwner] at isEntry
          simp only [assignApproved, isOwner, assign, afterStoring, bind_assoc, pure_bind,
            change_bind_apply, isEntry]
          rfl

/-- An assignment stores its value in the root frame or in the current one. -/
theorem owner_root_or_current
    (mode : Mode)
    (name : Text)
    (interpreter : Interpreter σ) :
    owner mode name interpreter = rootFrame ∨
      owner mode name interpreter = interpreter.current := by
  have directed : assignedFrame mode interpreter = rootFrame ∨
      assignedFrame mode interpreter = interpreter.current := by
    rw [assignedFrame]
    split
    · exact .inl rfl
    · exact .inr rfl
  rw [owner]
  cases known : assigned? mode name interpreter with
  | none =>
      exact directed
  | some found =>
      rw [assigned?] at known
      split at known
      · obtain ⟨_, _, isFrame⟩ := Option.map_eq_some_iff.mp known
        cases isFrame
        exact directed
      · rw [Interpreter.lookup?] at known
        split at known
        · cases known
          exact directed
        · obtain ⟨_, _, isRoot⟩ := Option.map_eq_some_iff.mp known
          cases isRoot
          exact .inl rfl

/-! ## Moves -/

/-- Evaluation in another frame, with another down frame. -/
def visiting (frame : FrameId) (down : Option FrameId) (machine : Machine σ) : Machine σ :=
  { machine with interpreter := { machine.interpreter with current := frame, down } }

/-- One part of what an assembled action does to its machine. -/
inductive Move (realm : Realm σ) (machine : Machine σ) : Machine σ → Prop where
  | aside {interpreter : Interpreter σ} :
      machine.interpreter.SameShape interpreter →
      Move realm machine { machine with interpreter }
  | define (name : Text) (parameters : List Text) (body : Text) :
      Move realm machine
        { machine with interpreter :=
          machine.interpreter.define name (.script parameters body) }
  | rename {old new : Text} {renamed : Interpreter σ} :
      machine.interpreter.rename old new = .ok renamed →
      Move realm machine { machine with interpreter := renamed }
  | touch {update : World σ → World σ} :
      realm.Touches update →
      Move realm machine { machine with world := update machine.world }
  | store (frame : FrameId) (name value : Text) :
      frame = rootFrame ∨ frame = machine.interpreter.current →
      Move realm machine (final (Eval.store frame name value) machine)
  | declare (name : Text) :
      realm.allowed .declareLocal →
      machine.interpreter.currentFrame.bindings.get? name = none →
      Move realm machine
        { machine with
          interpreter := (machine.interpreter.putVariable machine.interpreter.current name
            { name, owner := machine.interpreter.current, value := [] }) }
  | watch (name code : Text) :
      realm.allowed .watch →
      Move realm machine (final (Eval.watch name code) machine)
  | visit {frame : FrameId} {down : Option FrameId} :
      machine.interpreter.Borders frame →
      (∀ below, down = some below → machine.interpreter.Borders below) →
      Move realm machine (visiting frame down machine)
  | push (callee : Callee) {bindings : Table Variable} :
      bindings.Ordered →
      bindings.OwnedBy machine.interpreter.frames.size →
      Move realm machine
        (pushed { callee.frame machine.interpreter.current with bindings } machine)

/-- No move changes the callbacks and the context. -/
theorem Move.surroundings
    {realm : Realm σ}
    {before after : Machine σ}
    (move : Move realm before after) :
    after.interpreter.callbacks = before.interpreter.callbacks ∧
      after.interpreter.context = before.interpreter.context := by
  cases move with
  | aside same =>
      exact ⟨same.callbacks, same.context⟩
  | rename moved =>
      obtain ⟨functions, commands, rfl⟩ := Interpreter.rename_eq moved
      exact ⟨rfl, rfl⟩
  | store frame name value _ =>
      obtain ⟨stored, frames, world, ran, -⟩ := store_apply frame name value before
      rw [final_of_ok ran]
      exact ⟨rfl, rfl⟩
  | watch name code _ =>
      obtain ⟨frames, ran, -⟩ := watch_apply name code before
      rw [final_of_ok ran]
      exact ⟨rfl, rfl⟩
  | _ =>
      exact ⟨rfl, rfl⟩

/-- No move takes a frame away. -/
theorem Move.size_le
    {realm : Realm σ}
    {before after : Machine σ}
    (move : Move realm before after) :
    before.interpreter.frames.size ≤ after.interpreter.frames.size := by
  cases move with
  | aside same =>
      exact Nat.le_of_eq same.size.symm
  | rename moved =>
      obtain ⟨functions, commands, rfl⟩ := Interpreter.rename_eq moved
      exact Nat.le_refl _
  | store frame name value _ =>
      obtain ⟨stored, frames, world, ran, same, -⟩ := store_apply frame name value before
      rw [final_of_ok ran]
      exact Nat.le_of_eq same.size.symm
  | declare name _ _ =>
      exact Nat.le_of_eq (Interpreter.SameParents.putVariable ..).size.symm
  | watch name code _ =>
      obtain ⟨frames, ran, same⟩ := watch_apply name code before
      rw [final_of_ok ran]
      exact Nat.le_of_eq same.size.symm
  | push callee _ _ =>
      simp [pushed, frameRecord, Interpreter.addFrame]
  | _ =>
      exact Nat.le_refl _

/-- The commands of an interpreter stay accepted along every move, if script functions are. -/
theorem Move.offersOnly
    {realm : Realm σ}
    {before after : Machine σ}
    (move : Move realm before after)
    {accept : Definition σ → Prop}
    (scripts : ∀ parameters body, accept (.script parameters body))
    (offers : before.interpreter.OffersOnly accept) :
    after.interpreter.OffersOnly accept := by
  cases move with
  | aside same =>
      intro entry member function found
      rw [same.commands] at member
      rw [Interpreter.function?, same.functions] at found
      exact offers entry member function found
  | define name parameters body =>
      exact offers.define name (scripts parameters body)
  | rename moved =>
      exact offers.rename moved
  | store frame name value _ =>
      obtain ⟨stored, frames, world, ran, -⟩ := store_apply frame name value before
      rw [final_of_ok ran]
      exact offers
  | watch name code _ =>
      obtain ⟨frames, ran, -⟩ := watch_apply name code before
      rw [final_of_ok ran]
      exact offers
  | _ =>
      exact offers

/-- An interpreter without host commands gets none by a move. -/
theorem Move.hostFree
    {realm : Realm σ}
    {before after : Machine σ}
    (move : Move realm before after)
    (free : before.interpreter.HostFree) :
    after.interpreter.HostFree :=
  Interpreter.hostFree_iff.mpr (move.offersOnly (by simp) (Interpreter.hostFree_iff.mp free))

/--
What a move does to the world: nothing, a record of a new frame, what evaluation does by itself or
through a callback, or what the host does when it is asked about an assignment.
-/
theorem Move.world
    {realm : Realm σ}
    {before after : Machine σ}
    (move : Move realm before after) :
    (∃ update, realm.Touches update ∧ after.world = update before.world) ∨
      ∃ handle name value, before.interpreter.callbacks.setVariable = some handle ∧
        after.world = (handle name value before.world).2 := by
  have stays : ∃ update : World σ → World σ, realm.Touches update ∧
      before.world = update before.world :=
    ⟨id, .inl fun _ => .same, rfl⟩
  cases move with
  | touch touches =>
      exact .inl ⟨_, touches, rfl⟩
  | store frame name value _ =>
      obtain ⟨stored, frames, world, ran, -, asked⟩ := store_apply frame name value before
      rw [final_of_ok ran]
      rcases asked with rfl | ⟨handle, handled, rfl⟩
      · exact .inl stays
      · exact .inr ⟨handle, name, value, handled, rfl⟩
  | watch name code _ =>
      obtain ⟨frames, ran, -⟩ := watch_apply name code before
      rw [final_of_ok ran]
      exact .inl stays
  | push callee _ _ =>
      exact .inl ⟨fun world => world.record _, .inl fun _ => .record _, rfl⟩
  | _ =>
      exact .inl stays

/--
A relation between machines that leads along every run within a realm: it respects every move and
every return to a frame, and the world only goes onward along it.
-/
structure Leading
    (realm : Realm σ)
    (rel : Machine σ → Machine σ → Prop)
    (onward : World σ → World σ → Prop) : Prop where
  refl : ∀ machine, rel machine machine
  trans : ∀ {first second third}, rel first second → rel second third → rel first third
  holds : ∀ {before after}, rel before after → realm.holds before.interpreter →
    realm.holds after.interpreter
  move : ∀ {before after}, realm.holds before.interpreter → Move realm before after →
    rel before after
  back : ∀ {before after frame down below}, realm.holds before.interpreter →
    rel (visiting frame down before) after →
    below = before.interpreter.down ∨ below = after.interpreter.down →
    rel after (visiting before.interpreter.current below after)
  pop : ∀ {before after frame}, realm.holds before.interpreter →
    rel (pushed frame before) after → rel after (popped before after)
  goesOnward : ∀ {before after}, rel before after → onward before.world after.world
  onwardTrans : ∀ {first second third}, onward first second → onward second third →
    onward first third

end Eval

end LittleScript
