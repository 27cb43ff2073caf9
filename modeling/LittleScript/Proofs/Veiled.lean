import LittleScript.Command.Reflection

namespace LittleScript.Interpreter

/-!
# Interpreters with hidden variables

An interpreter is veiled when the variables of some frames are taken away and all else stays.  What
is looked up through frames that are not hidden is the same in both.
-/

variable {σ : Type}

/-- An interpreter without the variables of the frames that are out of reach. -/
def veiled (reach : FrameId → Bool) (interpreter : Interpreter σ) : Interpreter σ :=
  { interpreter with
    frames := interpreter.frames.mapIdx fun id frame =>
      if reach id then frame else { frame with bindings := {} } }

variable {reach : FrameId → Bool}

/-- Veiled is what is out of reach. -/
theorem frame_veiled
    (interpreter : Interpreter σ)
    (id : FrameId) :
    (interpreter.veiled reach).frame id =
      if reach id then interpreter.frame id
      else { interpreter.frame id with bindings := {} } := by
  by_cases inside : id < interpreter.frames.size
  · simp [veiled, frame, inside]
  · simp [veiled, frame, inside]

/-- A frame within reach is not veiled. -/
theorem frame_veiled_of_reach
    (interpreter : Interpreter σ)
    {id : FrameId}
    (reached : reach id = true) :
    (interpreter.veiled reach).frame id = interpreter.frame id := by
  rw [frame_veiled, if_pos reached]

/-- Nothing but variables is veiled. -/
theorem frame_veiled_but
    (interpreter : Interpreter σ)
    (reach : FrameId → Bool)
    (id : FrameId) :
    ∃ bindings,
      (interpreter.veiled reach).frame id = { interpreter.frame id with bindings } := by
  rw [frame_veiled]
  split
  · exact ⟨(interpreter.frame id).bindings, rfl⟩
  · exact ⟨{}, rfl⟩

section Reached

variable {interpreter : Interpreter σ}

theorem currentFrame_veiled
    (reached : reach interpreter.current = true) :
    (interpreter.veiled reach).currentFrame = interpreter.currentFrame :=
  frame_veiled_of_reach interpreter reached

theorem lookup?_veiled
    (root : reach rootFrame = true)
    {id : FrameId}
    (reached : reach id = true)
    (name : Text) :
    (interpreter.veiled reach).lookup? id name = interpreter.lookup? id name := by
  rw [lookup?, lookup?, frame_veiled_of_reach interpreter reached,
    frame_veiled_of_reach interpreter root]

theorem visible?_veiled
    (root : reach rootFrame = true)
    (reached : reach interpreter.current = true)
    (name : Text) :
    (interpreter.veiled reach).visible? name = interpreter.visible? name :=
  lookup?_veiled root reached name

theorem globalNames_veiled
    (root : reach rootFrame = true) :
    (interpreter.veiled reach).globalNames = interpreter.globalNames := by
  rw [globalNames, globalNames, frame_veiled_of_reach interpreter root]

theorem unusedFrom_veiled
    (root : reach rootFrame = true)
    (reached : reach interpreter.current = true)
    (part : Text)
    (bound : Nat) :
    ∀ number, (interpreter.veiled reach).unusedFrom part bound number =
      interpreter.unusedFrom part bound number := by
  induction bound with
  | zero =>
      exact fun _ => rfl
  | succ bound inductionHypothesis =>
      intro number
      simp only [unusedFrom, isUnused, visible?_veiled root reached, inductionHypothesis]
      rfl

theorem unusedName_veiled
    (root : reach rootFrame = true)
    (reached : reach interpreter.current = true)
    (part : Text) :
    (interpreter.veiled reach).unusedName part = interpreter.unusedName part := by
  simp only [unusedName, currentFrame_veiled reached, frame_veiled_of_reach interpreter root,
    unusedFrom_veiled root reached]
  rfl

end Reached

theorem callerFrom_veiled
    (interpreter : Interpreter σ)
    (bound : Nat) :
    ∀ id, (interpreter.veiled reach).callerFrom bound id = interpreter.callerFrom bound id := by
  induction bound with
  | zero =>
      exact fun _ => rfl
  | succ bound inductionHypothesis =>
      intro id
      obtain ⟨bindings, shape⟩ := interpreter.frame_veiled_but reach id
      simp only [callerFrom, shape, inductionHypothesis]

theorem callerFrame_veiled
    (interpreter : Interpreter σ) :
    (interpreter.veiled reach).callerFrame = interpreter.callerFrame := by
  rw [callerFrame, callerFrame, callerFrom_veiled]
  simp [veiled]

open Command in
/-- What is running does not hang on variables. -/
theorem runningCode_veiled
    (interpreter : Interpreter σ) :
    runningCode (interpreter.veiled reach) = runningCode interpreter := by
  obtain ⟨bindings, shape⟩ :=
    interpreter.frame_veiled_but reach interpreter.callerFrame
  simp only [runningCode, callerFrame_veiled, shape]
  rfl

open Command in
theorem runningName_veiled
    (interpreter : Interpreter σ) :
    runningName (interpreter.veiled reach) = runningName interpreter := by
  obtain ⟨bindings, shape⟩ :=
    interpreter.frame_veiled_but reach interpreter.callerFrame
  simp only [runningName, callerFrame_veiled, shape]
  rfl

open Command in
/-- On every topic a veiled interpreter gives the same answer. -/
theorem answer_veiled
    {interpreter : Interpreter σ}
    (root : reach rootFrame = true)
    (reached : reach interpreter.current = true)
    (topic : Topic)
    (subject : Text) :
    topic.answer (interpreter.veiled reach) subject = topic.answer interpreter subject := by
  cases topic with
  | names =>
      simp only [Topic.answer, visibleNames, currentFrame_veiled reached,
        globalNames_veiled root]
      rfl
  | globals =>
      simp only [Topic.answer, globalNames_veiled root]
  | hasVariable =>
      simp only [Topic.answer, visible?_veiled root reached]
  | hasGlobal =>
      simp only [Topic.answer, frame_veiled_of_reach interpreter root]
  | code =>
      simp only [Topic.answer, runningCode_veiled]
  | name =>
      simp only [Topic.answer, runningName_veiled]
  | _ =>
      rfl

/-! ## Changes under the veil -/

@[simp] theorem size_veiled
    (interpreter : Interpreter σ) :
    (interpreter.veiled reach).frames.size = interpreter.frames.size := by
  simp [veiled]

/-- A change of a frame within reach and the veil can change places. -/
theorem veiled_updateFrame
    (interpreter : Interpreter σ)
    {id : FrameId}
    (reached : reach id = true)
    (change : Frame → Frame) :
    (interpreter.updateFrame id change).veiled reach =
      (interpreter.veiled reach).updateFrame id change := by
  have frames : (interpreter.frames.modify id change).mapIdx (fun id frame =>
        if reach id then frame else { frame with bindings := {} }) =
      (interpreter.frames.mapIdx fun id frame =>
        if reach id then frame else { frame with bindings := {} }).modify id change := by
    refine Array.ext (by simp) fun index _ _ => ?_
    simp only [Array.getElem_mapIdx, Array.getElem_modify]
    by_cases same : id = index
    · subst same
      simp [reached]
    · simp [same]
  rw [veiled, updateFrame, frames]
  rfl

/-- A new frame within reach and the veil can change places. -/
theorem veiled_addFrame
    (interpreter : Interpreter σ)
    (reached : reach interpreter.frames.size = true)
    (frame : Frame) :
    (interpreter.addFrame frame).2.veiled reach =
      ((interpreter.veiled reach).addFrame frame).2 := by
  rw [veiled, addFrame, Array.mapIdx_push, if_pos reached]
  rfl

/-- A change of a frame within reach leaves those out of reach as they are. -/
theorem updateFrame_hidden
    (interpreter : Interpreter σ)
    {id hidden : FrameId}
    (reached : reach id = true)
    (isHidden : reach hidden = false)
    (change : Frame → Frame) :
    (interpreter.updateFrame id change).frames[hidden]? = interpreter.frames[hidden]? := by
  have other : id ≠ hidden := by
    rintro rfl
    simp [reached] at isHidden
  rw [updateFrame, Array.getElem?_modify, if_neg other]

theorem addFrame_hidden
    (interpreter : Interpreter σ)
    {hidden : FrameId}
    (reached : reach interpreter.frames.size = true)
    (isHidden : reach hidden = false)
    (frame : Frame) :
    (interpreter.addFrame frame).2.frames[hidden]? = interpreter.frames[hidden]? := by
  have other : hidden ≠ interpreter.frames.size := by
    rintro rfl
    simp [reached] at isHidden
  rw [addFrame, Array.getElem?_push, if_neg other]

end LittleScript.Interpreter
