import LittleScript.Proofs.FrameTree
import LittleScript.Proofs.Isolation
import LittleScript.Proofs.VariableReading

namespace LittleScript

/-!
# Isolation of code in a fresh frame

The fresh frame of an isolated evaluation hangs below the root frame.  Whatever commands its code
uses, it goes to the root frame and to the frames that are made while it runs: the parents of these
are among them, and so is every frame that it left to go up.  Only the copies of variables, in
before and out afterwards, touch the frame from which it was called.
-/

variable {σ α β : Type}

namespace Eval

/-- Steps change neither the tree of frames nor the place of evaluation in it. -/
theorem Step.sameParents
    {reach : FrameId → Bool}
    {update : Interpreter σ → Interpreter σ}
    (step : Step reach update)
    (interpreter : Interpreter σ) :
    interpreter.SameParents (update interpreter) ∧
      (update interpreter).current = interpreter.current ∧
      (update interpreter).down = interpreter.down := by
  cases step with
  | putVariable frame name entry _ =>
      exact ⟨.putVariable .., rfl, rfl⟩
  | rename old new =>
      dsimp only
      cases attempted : interpreter.rename old new with
      | error reason =>
          exact ⟨.of_frames rfl, rfl, rfl⟩
      | ok renamed =>
          obtain ⟨functions, commands, rfl⟩ := Interpreter.rename_eq attempted
          exact ⟨.of_frames rfl, rfl, rfl⟩
  | finish value =>
      exact ⟨.updateFrame _ _ fun _ => rfl, rfl, rfl⟩
  | provide value =>
      exact ⟨.updateFrame _ _ fun _ => rfl, rfl, rfl⟩
  | resume =>
      exact ⟨.updateFrame _ _ fun _ => rfl, rfl, rfl⟩
  | take =>
      exact ⟨.updateFrame _ _ fun _ => rfl, rfl, rfl⟩
  | _ =>
      exact ⟨.of_frames rfl, rfl, rfl⟩

end Eval

/-! ## Enclosed interpreters -/

/--
From the frames that are newer than the first `size` ones no way leads to an older frame than the
root: neither their parents nor the down frame.
-/
structure Interpreter.Walled (size : Nat) (interpreter : Interpreter σ) : Prop where
  free : interpreter.HostFree
  grown : size ≤ interpreter.frames.size
  down : ∀ {id}, interpreter.down = some id → calleeReach size id = true
  parents : ∀ {id parent}, calleeReach size id = true →
    (interpreter.frame id).parent = some parent → calleeReach size parent = true

/-- Evaluation is in the root frame or in a newer frame than the first `size` ones. -/
structure Interpreter.Enclosed (size : Nat) (interpreter : Interpreter σ) : Prop
    extends interpreter.Walled size where
  current : calleeReach size interpreter.current = true

namespace Interpreter.Walled

variable {size : Nat} {interpreter : Interpreter σ}

/-- In a tree no frame is newer than all of them, and from the root no way leads on. -/
theorem of_wellFramed
    (free : interpreter.HostFree)
    (framed : interpreter.WellFramed)
    (notUp : interpreter.down = none) :
    interpreter.Walled interpreter.frames.size where
  free := free
  grown := Nat.le_refl _
  down isDown := by simp [notUp] at isDown
  parents {id parent} reached isParent := by
    have older := framed.older isParent
    have notRoot : id ≠ rootFrame := by
      rintro rfl
      exact Nat.not_lt_zero _ older
    have newer : interpreter.frames.size ≤ id := by
      simpa [calleeReach, notRoot] using reached
    simp [Interpreter.frame, newer] at isParent

theorem of_sameParents
    (walled : interpreter.Walled size)
    {after : Interpreter σ}
    (free : after.HostFree)
    (same : interpreter.SameParents after)
    (down : after.down = interpreter.down) :
    after.Walled size where
  free := free
  grown := same.size ▸ walled.grown
  down isDown := walled.down (down.symm.trans isDown)
  parents reached isParent := walled.parents reached ((same.parent _).symm.trans isParent)

/-- Evaluation goes to the root frame or to a newer one. -/
theorem enclosed
    (walled : interpreter.Walled size)
    {frame : FrameId}
    {down : Option FrameId}
    (reached : calleeReach size frame = true)
    (reachedDown : ∀ id, down = some id →
      calleeReach size id = true ∨ interpreter.down = some id) :
    ({ interpreter with current := frame, down } : Interpreter σ).Enclosed size where
  free := walled.free
  grown := walled.grown
  down isDown := (reachedDown _ isDown).elim id walled.down
  parents := walled.parents
  current := reached

/-- A new frame below the root frame or below a newer one adds no way to an older frame. -/
theorem addFrame
    (walled : interpreter.Walled size)
    {frame : Frame}
    (reached : ∀ parent, frame.parent = some parent → calleeReach size parent = true) :
    ({ (interpreter.addFrame frame).2 with
      current := interpreter.frames.size } : Interpreter σ).Enclosed size where
  free := walled.free
  grown := Nat.le_trans walled.grown (by simp [Interpreter.addFrame])
  down := walled.down
  parents {id parent} isReached isParent := by
    have added : (({ (interpreter.addFrame frame).2 with
        current := interpreter.frames.size } : Interpreter σ).frame id) =
          if id = interpreter.frames.size then frame else interpreter.frame id :=
      interpreter.frame_addFrame id frame
    rw [added] at isParent
    split at isParent
    · exact reached parent isParent
    · exact walled.parents isReached isParent
  current := calleeReach_of_le walled.grown

/-- Evaluation comes back to where it was. -/
theorem comeBack
    (walled : interpreter.Walled size)
    {after : Interpreter σ}
    (walledAfter : after.Walled size)
    {down : Option FrameId}
    (isDown : down = interpreter.down ∨ down = after.down)
    (current : FrameId) :
    ({ after with current, down } : Interpreter σ).Walled size where
  free := walledAfter.free
  grown := walledAfter.grown
  down {id} leads := by
    rcases isDown with rfl | rfl
    · exact walled.down leads
    · exact walledAfter.down leads
  parents := walledAfter.parents

end Interpreter.Walled

namespace Eval

/-- The scope of code in a fresh frame before which there were `size` frames: it may do anything. -/
def Scope.enclave (size : Nat) : Scope σ where
  holds := Interpreter.Enclosed size
  reach := calleeReach size
  allowed _ := True
  drops := True
  free enclosed := enclosed.free
  root := calleeReach_root size
  current enclosed := enclosed.current
  offers _ _ _ := True.intro
  up _ _ _ enclosed isParent := enclosed.parents enclosed.current isParent
  down _ _ _ enclosed isDown := enclosed.down isDown

theorem Scope.enclave_stable
    (size : Nat) :
    (Scope.enclave (σ := σ) size).Stable where
  drops := True.intro
  fresh enclosed := calleeReach_of_le enclosed.grown
  step update interpreter enclosed := by
    obtain ⟨same, current, down⟩ := update.sameParents interpreter
    exact ⟨enclosed.of_sameParents (update.hostFree enclosed.free) same down,
      current ▸ enclosed.current⟩
  control enclosed _ _ _ _ :=
    ⟨enclosed.of_sameParents enclosed.free (.of_frames rfl) rfl, enclosed.current⟩
  visit enclosed _ _ reached reachedDown := enclosed.enclosed reached reachedDown
  back before after isDown := ⟨before.comeBack after.toWalled isDown _, before.current⟩
  push enclosed _ reached := enclosed.addFrame reached
  release enclosed id :=
    ⟨enclosed.of_sameParents enclosed.free (.release _ id) rfl, enclosed.current⟩

/-! ## Code in a fresh frame -/

/-- Run code in a fresh frame to which values have been copied, and read the variables there. -/
def enclave (run : Run σ) (code : Text) (copied : List (Text × Text)) (exports : List Text) :
    Eval σ (Text × List Text) :=
  inNewFrame { parent := some rootFrame } do
    setVariables run .fresh copied
    let value ← run code false
    return (value, ← getVariables exports)

/-- The part of an isolated evaluation before its values are copied out. -/
def enclosedRun (run : Run σ) (code : Text) (imports exports : List Text) :
    Eval σ (Text × List Text) := do
  let imported ← getVariables imports
  enclave run code (imports.zip imported) exports

/-- An isolated evaluation copies out at last. -/
theorem isolatedEvaluate_eq
    (run : Run σ)
    (code : Text)
    (imports exports : List Text) :
    isolatedEvaluate run code imports exports =
      enclosedRun run code imports exports >>= fun left =>
        setVariables run .visible (exports.zip left.2) >>= fun _ => pure left.1 := by
  rw [enclosedRun, bind_assoc]
  rfl

/-- Code in a fresh frame is confined to the root frame and to newer frames. -/
theorem enclave_confined
    (fuel : Nat)
    (code : Text)
    (copied : List (Text × Text))
    (exports : List Text)
    {size : Nat}
    {machine : Machine σ}
    (walled : machine.interpreter.Walled size) :
    ConfinedAt (calleeReach size) (enclave (evaluate fuel) code copied exports) machine ∧
      (final (enclave (evaluate fuel) code copied exports) machine).interpreter.Walled size ∧
      (final (enclave (evaluate fuel) code copied exports) machine).interpreter.current =
        machine.interpreter.current := by
  have stable := Scope.enclave_stable (σ := σ) size
  have inner : Composed (Scope.enclave size).toRealm fun run : Run σ =>
      setVariables run .fresh copied >>= fun _ => run code false >>= fun value =>
        getVariables exports >>= fun exported => pure (value, exported) :=
    .bind (.setVariables ..) fun _ => .bind (.nested ..) fun _ =>
      .bind (Assembled.getVariables exports).composed fun _ => .pure _
  have started : (pushed { parent := some rootFrame } machine).interpreter.Enclosed size := by
    refine walled.addFrame fun parent isParent => ?_
    cases isParent
    exact calleeReach_root size
  obtain ⟨ended, confined⟩ := inner.confined stable (evaluate_confined stable fuel) _ started
  refine ⟨confined.inNewFrame (calleeReach_of_le walled.grown), ?_⟩
  have whole : final (enclave (evaluate fuel) code copied exports) machine = popped machine _ :=
    final_ensuring _ _ _
  rw [whole]
  exact ⟨walled.comeBack (stable.release ended _).toWalled (.inr rfl) _, rfl⟩

end Eval

/-! ## Copying out -/

/-- No variable of a frame is watched. -/
def Frame.Unwatched (frame : Frame) : Prop :=
  ∀ {name entry}, frame.bindings.get? name = some entry → entry.watch = []

/-- Evaluation is in an old frame below the root, whose variables are not watched. -/
structure Interpreter.Beside (size : Nat) (id : FrameId) (interpreter : Interpreter σ) : Prop
    extends interpreter.Walled size where
  here : interpreter.current = id
  hidden : calleeReach size id = false
  unwatched : (interpreter.frame id).Unwatched

namespace Interpreter.Beside

variable {size : Nat} {id : FrameId} {interpreter : Interpreter σ}

theorem ne_root
    (beside : interpreter.Beside size id) :
    id ≠ rootFrame := by
  rintro rfl
  exact nomatch beside.hidden

theorem present
    (beside : interpreter.Beside size id) :
    id < interpreter.frames.size := by
  have older : ¬ size ≤ id := fun newer => by
    have reached := calleeReach_of_le newer
    rw [beside.hidden] at reached
    exact nomatch reached
  exact Nat.lt_of_lt_of_le (Nat.not_le.mp older) beside.grown

/-- An assignment finds a variable of the root frame, or one of the frame that is not watched. -/
theorem assigned?_cases
    (beside : interpreter.Beside size id)
    {name : Text}
    {found : FrameId × Variable}
    (known : Eval.Composed.assigned? .visible name interpreter = some found) :
    found.1 = rootFrame ∨ found.1 = id ∧ found.2.watch = [] := by
  have seen : interpreter.lookup? id name = some found := by
    rw [← known, ← beside.here]
    rfl
  rw [Interpreter.lookup?] at seen
  split at seen
  · rename_i entry held
    cases seen
    exact .inr ⟨rfl, beside.unwatched held⟩
  · obtain ⟨_, _, rfl⟩ := Option.map_eq_some_iff.mp seen
    exact .inl rfl

/-- An assignment to the frame runs no watch. -/
theorem ownWatch_eq_nil
    (beside : interpreter.Beside size id)
    (name : Text)
    (isOwner : Eval.owner .visible name interpreter = id) :
    Eval.ownWatch .visible name interpreter = [] := by
  cases known : Eval.Composed.assigned? .visible name interpreter with
  | none =>
      simp [Eval.ownWatch, known]
  | some found =>
      have isFound : found.1 = id := by simpa [Eval.owner, known] using isOwner
      rcases beside.assigned?_cases known with atRoot | ⟨_, noWatch⟩
      · exact absurd (isFound.symm.trans atRoot) beside.ne_root
      · simp [Eval.ownWatch, known, noWatch]

/-- A variable that is put into a frame, unwatched if into this one, leaves the others here. -/
theorem putVariable
    (beside : interpreter.Beside size id)
    (owner : FrameId)
    (name : Text)
    (entry : Variable)
    (unwatched : owner = id → entry.watch = []) :
    (interpreter.putVariable owner name entry).Beside size id ∧
      ∀ other, other ≠ name →
        ((interpreter.putVariable owner name entry).frame id).bindings.get? other =
          (interpreter.frame id).bindings.get? other := by
  have changed : ((interpreter.putVariable owner name entry).frame id).bindings =
      if owner = id then (interpreter.frame id).bindings.insert name entry
      else (interpreter.frame id).bindings := by
    rw [Interpreter.putVariable, Interpreter.frame_updateFrame]
    by_cases same : owner = id
    · simp [same, beside.present]
    · simp [same]
  refine ⟨⟨beside.of_sameParents beside.free (.putVariable ..) rfl, beside.here, beside.hidden,
    fun {other held} isHeld => ?_⟩, fun other isOther => ?_⟩
  · rw [changed] at isHeld
    split at isHeld
    · rename_i same
      rw [Table.get?_insert] at isHeld
      split at isHeld
      · cases isHeld
        exact unwatched same
      · exact beside.unwatched isHeld
    · exact beside.unwatched isHeld
  · rw [changed]
    split
    · rw [Table.get?_insert, if_neg isOther]
    · rfl

/-- A frame that nothing has reached is as it was. -/
theorem of_hidden
    (beside : interpreter.Beside size id)
    {after : Interpreter σ}
    (walled : after.Walled size)
    (current : after.current = interpreter.current)
    (same : after.frames[id]? = interpreter.frames[id]?) :
    after.Beside size id ∧ after.frame id = interpreter.frame id := by
  have sameFrame : after.frame id = interpreter.frame id := by
    simp only [Interpreter.frame, Array.getD_eq_getD_getElem?, same]
  exact ⟨⟨walled, current.trans beside.here, beside.hidden, sameFrame ▸ beside.unwatched⟩,
    sameFrame⟩

end Interpreter.Beside

namespace Eval

/-- Nothing changes behind an action if what follows it changes nothing. -/
theorem final_bind_still
    {action : Eval σ α}
    {next : α → Eval σ β}
    (still : ∀ value machine, final (next value) machine = machine)
    (machine : Machine σ) :
    final (action >>= next) machine = final action machine := by
  cases ran : action machine with
  | ok value after =>
      rw [final_of_ok ran, ← still value after, final, bind_of_ok ran]
      rfl
  | error stop after =>
      rw [final_of_error ran, final_of_error (bind_of_error ran)]

/-- A watch that runs in a frame within reach leaves the frame beside it. -/
theorem runWatch_beside
    (fuel : Nat)
    (code : Text)
    {size : Nat}
    {id frame : FrameId}
    {machine : Machine σ}
    (beside : machine.interpreter.Beside size id)
    (reached : calleeReach size frame = true) :
    (final (runWatch (evaluate fuel) frame code) machine).interpreter.Beside size id ∧
      (final (runWatch (evaluate fuel) frame code) machine).interpreter.frame id =
        machine.interpreter.frame id := by
  rw [runWatch]
  split
  · have whole : final (do
          let here ← inspect Interpreter.current
          change fun interpreter => { interpreter with current := frame }
          ensuring (do let _ ← evaluate fuel code true) fun machine =>
            { machine with interpreter := { machine.interpreter with current := here } })
          machine = _ :=
      final_ensuring _ _ _
    rw [whole, final_bind_still fun _ _ => rfl]
    obtain ⟨ended, confined⟩ := evaluate_confined (Scope.enclave_stable size) fuel code true
      { machine with interpreter := { machine.interpreter with current := frame } }
      (beside.enclosed reached fun _ isDown => .inr isDown)
    exact beside.of_hidden (beside.comeBack ended.toWalled (.inr rfl) _) rfl
      (confined.hidden id beside.hidden)
  · exact ⟨beside, rfl⟩

/-- What an assignment from the frame beside does once its value is stored leaves that frame. -/
theorem afterStoring_beside
    (fuel : Nat)
    (name : Text)
    (stored : Option Text)
    {size : Nat}
    {id : FrameId}
    {machine : Machine σ}
    (beside : machine.interpreter.Beside size id)
    {target : Option (FrameId × Variable)}
    (owned : ∀ found, target = some found →
      found.1 = rootFrame ∨ found.1 = id ∧ found.2.watch = []) :
    (final (afterStoring (evaluate fuel) name target stored)
        machine).interpreter.Beside size id ∧
      (final (afterStoring (evaluate fuel) name target stored) machine).interpreter.frame id =
        machine.interpreter.frame id := by
  cases stored with
  | none =>
      exact ⟨beside, rfl⟩
  | some stored =>
      cases target with
      | none =>
          exact ⟨beside, rfl⟩
      | some found =>
          rw [afterStoring, final_bind_still fun _ _ => rfl]
          rcases owned found rfl with atRoot | ⟨_, noWatch⟩
          · rw [atRoot]
            exact runWatch_beside fuel found.2.watch beside (calleeReach_root size)
          · rw [noWatch]
            exact ⟨beside, rfl⟩

/-- An assignment from the frame beside changes no other variable there. -/
theorem setVariable_beside
    (fuel : Nat)
    (name value : Text)
    {size : Nat}
    {id : FrameId}
    {machine : Machine σ}
    (beside : machine.interpreter.Beside size id) :
    (final (setVariable (evaluate fuel) name value .visible) machine).interpreter.Beside size id ∧
      ∀ other, other ≠ name →
        ((final (setVariable (evaluate fuel) name value .visible)
            machine).interpreter.frame id).bindings.get? other =
          (machine.interpreter.frame id).bindings.get? other := by
  cases unnamed : name.isEmpty with
  | true =>
      have still : setVariable (evaluate fuel) name value .visible machine = .ok none machine := by
        simp only [setVariable, unnamed, if_true]
        rfl
      rw [final_of_ok still]
      exact ⟨beside, fun _ _ => rfl⟩
  | false =>
      have notFresh : Mode.visible ≠ .fresh := by decide
      have applied := setVariable_apply (evaluate fuel) unnamed value notFresh machine
      obtain ⟨world, -, vetoed | ⟨stored, put⟩⟩ :=
        store_cases (owner .visible name machine.interpreter) name value machine
      · rw [bind_of_ok vetoed] at applied
        rw [final_of_ok (applied.trans rfl)]
        exact ⟨{ beside with }, fun _ _ => rfl⟩
      · obtain ⟨besideStored, keeps⟩ := beside.putVariable
          (owner .visible name machine.interpreter) name
          { machine.interpreter.entryAt (owner .visible name machine.interpreter) name with
            value := stored }
          fun here =>
            (watch_entryAt_owner .visible name _).trans (beside.ownWatch_eq_nil name here)
        have besideThere : Interpreter.Beside size id (Machine.mk _ world).interpreter :=
          besideStored
        obtain ⟨besideAfter, same⟩ := afterStoring_beside fuel name (some stored) besideThere
          fun found known => beside.assigned?_cases known
        rw [final, applied, bind_of_ok put, ← final]
        refine ⟨besideAfter, fun other isOther => ?_⟩
        exact (congrArg (fun frame => frame.bindings.get? other) same).trans (keeps other isOther)

/-- Copying out changes no variable of the frame beside that is not named. -/
theorem setVariables_beside
    (fuel : Nat)
    {size : Nat}
    {id : FrameId}
    (pairs : List (Text × Text))
    {machine : Machine σ}
    (beside : machine.interpreter.Beside size id) :
    ∀ other, other ∉ pairs.map Prod.fst →
      ((final (setVariables (evaluate fuel) .visible pairs)
          machine).interpreter.frame id).bindings.get? other =
        (machine.interpreter.frame id).bindings.get? other := by
  induction pairs generalizing machine with
  | nil =>
      exact fun _ _ => rfl
  | cons pair rest inductionHypothesis =>
      intro other unnamed
      simp only [List.map_cons, List.mem_cons, not_or] at unnamed
      obtain ⟨besideBetween, keeps⟩ := setVariable_beside fuel pair.1 pair.2 beside
      rw [← keeps other unnamed.1]
      cases ran : setVariable (evaluate fuel) pair.1 pair.2 .visible machine with
      | ok held between =>
          rw [final_of_ok ran] at besideBetween ⊢
          rw [← inductionHypothesis besideBetween other unnamed.2, setVariables, final,
            bind_of_ok ran]
          rfl
      | error stop between =>
          rw [final_of_error ran, setVariables, final_of_error (bind_of_error ran)]

end Eval

/-! ## Interpreters that differ in hidden variables -/

namespace Interpreter

/-- What is not veiled is the same. -/
theorem frame_eq_of_veiled
    {reach : FrameId → Bool}
    {first second : Interpreter σ}
    (same : second.veiled reach = first.veiled reach)
    {id : FrameId}
    (reached : reach id = true) :
    second.frame id = first.frame id := by
  rw [← second.frame_veiled_of_reach reached, same, first.frame_veiled_of_reach reached]

theorem SameParents.of_veiled
    {reach : FrameId → Bool}
    {first second : Interpreter σ}
    (same : second.veiled reach = first.veiled reach) :
    first.SameParents second where
  size := by simpa using congrArg (·.frames.size) same
  parent id := by
    obtain ⟨_, shape⟩ := first.frame_veiled_but reach id
    obtain ⟨_, shapeSecond⟩ := second.frame_veiled_but reach id
    rw [same, shape] at shapeSecond
    exact (congrArg Frame.parent shapeSecond).symm

/-- Where ways lead does not hang on hidden variables. -/
theorem Walled.of_veiled
    {size : Nat}
    {first second : Interpreter σ}
    (walled : first.Walled size)
    {reach : FrameId → Bool}
    (same : second.veiled reach = first.veiled reach) :
    second.Walled size := by
  have free : (second.veiled reach).HostFree := same ▸ (show (first.veiled reach).HostFree from
    walled.free)
  have sameDown := congrArg Interpreter.down same
  exact walled.of_sameParents free (.of_veiled same) sameDown

/-- A name has the same value where the variables of the current frame and the root frame agree. -/
theorem valueOf_eq_of_veiled
    {reach : FrameId → Bool}
    (root : reach rootFrame = true)
    {first second : Interpreter σ}
    (same : second.veiled reach = first.veiled reach)
    {name : Text}
    (agree : second.currentFrame.bindings.get? name = first.currentFrame.bindings.get? name) :
    second.valueOf name = first.valueOf name := by
  have sameCurrent : (second.veiled reach).current = (first.veiled reach).current :=
    congrArg Interpreter.current same
  change second.current = first.current at sameCurrent
  have sameRoot := frame_eq_of_veiled same root
  rw [currentFrame, currentFrame] at agree
  rw [valueOf, valueOf, visible?, visible?, lookup?, lookup?, agree, sameRoot, sameCurrent]

end Interpreter

namespace Eval

/-! ## Isolated evaluations -/

/-- Without a host that answers for variables the values to copy in are those in the frame. -/
theorem enclosedRun_apply
    (run : Run σ)
    (code : Text)
    (imports exports : List Text)
    {machine : Machine σ}
    (unasked : machine.interpreter.callbacks.getVariable = none) :
    enclosedRun run code imports exports machine =
      enclave run code (imports.zip (imports.map machine.interpreter.valueOf)) exports machine := by
  rw [enclosedRun, bind_of_ok (getVariables_apply unasked imports)]

/-- The value of an isolated evaluation is that of its code. -/
theorem isolatedEvaluate_eq_ok
    {run : Run σ}
    {code : Text}
    {imports exports : List Text}
    {machine after : Machine σ}
    {value : Text}
    (ran : isolatedEvaluate run code imports exports machine = .ok value after) :
    ∃ exported between,
      enclosedRun run code imports exports machine = .ok (value, exported) between := by
  rw [isolatedEvaluate_eq] at ran
  obtain ⟨left, between, enclosed, copies⟩ := bind_eq_ok ran
  obtain ⟨_, _, _, yields⟩ := bind_eq_ok copies
  cases yields
  exact ⟨left.2, between, enclosed⟩

/-- An isolated evaluation changes no variable of its frame but those that it copies out. -/
theorem isolatedEvaluate_beside
    (fuel : Nat)
    (code : Text)
    (imports exports : List Text)
    {size : Nat}
    {id : FrameId}
    {machine : Machine σ}
    (beside : machine.interpreter.Beside size id)
    (unasked : machine.interpreter.callbacks.getVariable = none)
    {name : Text}
    (kept : name ∉ exports) :
    ((final (isolatedEvaluate (evaluate fuel) code imports exports)
        machine).interpreter.frame id).bindings.get? name =
      (machine.interpreter.frame id).bindings.get? name := by
  have enclosed := enclosedRun_apply (evaluate fuel) code imports exports unasked
  obtain ⟨confined, walled, current⟩ := enclave_confined fuel code
    (imports.zip (imports.map machine.interpreter.valueOf)) exports beside.toWalled
  obtain ⟨besideBetween, sameFrame⟩ := beside.of_hidden walled current
    (confined.hidden id beside.hidden)
  rw [isolatedEvaluate_eq]
  cases ran : enclave (evaluate fuel) code (imports.zip (imports.map machine.interpreter.valueOf))
      exports machine with
  | ok left between =>
      rw [final_of_ok ran] at besideBetween sameFrame
      have unnamed : name ∉ (exports.zip left.2).map Prod.fst := by
        rintro member
        obtain ⟨pair, isPair, rfl⟩ := List.mem_map.mp member
        exact kept (List.of_mem_zip isPair).1
      rw [final, bind_of_ok (enclosed.trans ran), ← final, final_bind_still fun _ _ => rfl,
        setVariables_beside fuel _ besideBetween name unnamed, sameFrame]
  | error stop between =>
      rw [final_of_error ran] at sameFrame
      rw [final_of_error (bind_of_error (enclosed.trans ran)), sameFrame]

/-- The code of an isolated evaluation does not see hidden variables that are not copied in. -/
theorem enclosedRun_blind
    (fuel : Nat)
    (code : Text)
    (imports exports : List Text)
    {size : Nat}
    {machine other : Machine σ}
    (walled : machine.interpreter.Walled size)
    (unasked : machine.interpreter.callbacks.getVariable = none)
    (same : other.veiled (calleeReach size) = machine.veiled (calleeReach size))
    (agree : ∀ name ∈ imports, other.interpreter.currentFrame.bindings.get? name =
      machine.interpreter.currentFrame.bindings.get? name) :
    veilEnd (calleeReach size) (enclosedRun (evaluate fuel) code imports exports other) =
      veilEnd (calleeReach size) (enclosedRun (evaluate fuel) code imports exports machine) := by
  have sameInterpreter : other.interpreter.veiled (calleeReach size) =
      machine.interpreter.veiled (calleeReach size) := congrArg Machine.interpreter same
  have unaskedOther : other.interpreter.callbacks.getVariable = none := by
    have sameCallbacks := congrArg (·.callbacks.getVariable) sameInterpreter
    exact sameCallbacks.trans unasked
  have sameValues : imports.map other.interpreter.valueOf =
      imports.map machine.interpreter.valueOf :=
    List.map_congr_left fun name member =>
      Interpreter.valueOf_eq_of_veiled (calleeReach_root size) sameInterpreter (agree name member)
  have walledOther := walled.of_veiled sameInterpreter
  obtain ⟨confined, -⟩ := enclave_confined fuel code
    (imports.zip (imports.map machine.interpreter.valueOf)) exports walled
  obtain ⟨confinedOther, -⟩ := enclave_confined fuel code
    (imports.zip (imports.map machine.interpreter.valueOf)) exports walledOther
  rw [enclosedRun_apply _ code imports exports unaskedOther, sameValues,
    enclosedRun_apply _ code imports exports unasked, ← confinedOther.blind, same,
    confined.blind]

/--
An isolated evaluation is isolated from the frame in which it is called, whatever its code is: a
frame of the tree, below the root, whose variables are not watched, and from which there is no way
down.  It changes no variable of the frame but those that it copies out at last.  From
a machine that differs only in variables of frames below the root, but not in those of the frame
that it copies in, all before the copying out ends alike: with the same value and the same values to
copy out or the same stop, in the same world, and with interpreters that still differ only in such
variables; so where both evaluations yield a value it is the same.
-/
theorem isolated_evaluation_is_isolated
    (fuel : Nat)
    (code : Text)
    (imports exports : List Text)
    {machine : Machine σ}
    (free : machine.interpreter.HostFree)
    (framed : machine.interpreter.WellFramed)
    (below : machine.interpreter.current ≠ rootFrame)
    (notUp : machine.interpreter.down = none)
    (unwatched : machine.interpreter.currentFrame.Unwatched)
    (unasked : machine.interpreter.callbacks.getVariable = none) :
    isolatedEvaluate (evaluate (σ := σ) fuel) code imports exports =
      (enclosedRun (evaluate fuel) code imports exports >>= fun left =>
        setVariables (evaluate fuel) .visible (exports.zip left.2) >>= fun _ => pure left.1) ∧
    (∀ name, name ∉ exports →
      ((final (isolatedEvaluate (evaluate fuel) code imports exports) machine).interpreter.frame
          machine.interpreter.current).bindings.get? name =
        machine.interpreter.currentFrame.bindings.get? name) ∧
    ∀ other : Machine σ,
      other.veiled (calleeReach machine.interpreter.frames.size) =
        machine.veiled (calleeReach machine.interpreter.frames.size) →
      (∀ name ∈ imports, other.interpreter.currentFrame.bindings.get? name =
        machine.interpreter.currentFrame.bindings.get? name) →
      veilEnd (calleeReach machine.interpreter.frames.size)
          (enclosedRun (evaluate fuel) code imports exports other) =
        veilEnd (calleeReach machine.interpreter.frames.size)
          (enclosedRun (evaluate fuel) code imports exports machine) ∧
      ∀ value value' after after',
        isolatedEvaluate (evaluate fuel) code imports exports machine = .ok value after →
        isolatedEvaluate (evaluate fuel) code imports exports other = .ok value' after' →
        value' = value := by
  have walled : machine.interpreter.Walled machine.interpreter.frames.size :=
    .of_wellFramed free framed notUp
  have hidden : calleeReach machine.interpreter.frames.size machine.interpreter.current =
      false := by
    simp [calleeReach, below, framed.current]
  refine ⟨isolatedEvaluate_eq .., fun name kept => ?_, fun other same agree => ?_⟩
  · exact isolatedEvaluate_beside fuel code imports exports ⟨walled, rfl, hidden, unwatched⟩
      unasked kept
  · have blind := enclosedRun_blind fuel code imports exports walled unasked same agree
    refine ⟨blind, fun value value' after after' ran ranOther => ?_⟩
    obtain ⟨exported, between, enclosed⟩ := isolatedEvaluate_eq_ok ran
    obtain ⟨exportedOther, betweenOther, enclosedOther⟩ := isolatedEvaluate_eq_ok ranOther
    simp only [enclosed, enclosedOther, veilEnd, EStateM.Result.ok.injEq, Prod.mk.injEq] at blind
    exact blind.1.1

/-- An interpreter with the commands `set`, `upeval` and `downeval`. -/
def climbing : Interpreter Unit :=
  ((({} : Interpreter Unit).define (Text.ofString "set") (.builtin .setVariable)).define
    (Text.ofString "upeval") (.builtin .upEvaluate)).define
    (Text.ofString "downeval") (.builtin .downEvaluate)

/-- That interpreter in a frame below the root with some variables. -/
def climbingBelow (locals : Table Variable) : Machine Unit :=
  pushed { parent := some rootFrame, bindings := locals } ⟨climbing, { host := () }⟩

/-- The variable `y` of the frame below the root. -/
def secondLocal : Variable :=
  { name := [0x79], owner := 1, value := [0x32] }

/-- The variables `x` and `y` of the frame below the root. -/
def twoLocals : Table Variable :=
  ⟨oneLocal.entries ++ [([0x79], secondLocal)]⟩

/-- Code that goes up and down the frames and assigns both. -/
def climbingCode : Text :=
  Text.ofString "upeval set y 9; downeval set y 8; set x 7"

/--
Code that goes up and down its frames assigns a variable of the caller for itself only, and does not
see whether the caller has it.
-/
theorem isolated_evaluation_is_isolated_climbing :
    ((final (isolatedEvaluate (evaluate 5) climbingCode [[0x78]] [[0x78]])
        (climbingBelow twoLocals)).interpreter.frame 1).bindings.get? [0x79] =
      some secondLocal ∧
    veilEnd (calleeReach 2) (enclosedRun (evaluate 5) climbingCode [[0x78]] [[0x78]]
        (climbingBelow oneLocal)) =
      veilEnd (calleeReach 2) (enclosedRun (evaluate 5) climbingCode [[0x78]] [[0x78]]
        (climbingBelow twoLocals)) := by
  have rooted : climbing.WellFramed := .of_new rfl rfl rfl
  have framed : (climbingBelow twoLocals).interpreter.WellFramed :=
    rooted.addFrame rfl rooted.rooted
  have free : climbing.HostFree := by
    have empty : ({} : Interpreter Unit).HostFree := fun _ member => nomatch member
    exact ((empty.define _ (by simp)).define _ (by simp)).define _ (by simp)
  have unwatched : (climbingBelow twoLocals).interpreter.currentFrame.Unwatched := by
    have noWatch : ∀ listed ∈ twoLocals.entries, listed.2.watch = [] := by decide
    intro name entry held
    have isHeld : twoLocals.get? name = some entry := held
    obtain ⟨listed, isListed, rfl⟩ := Table.mem_of_get? isHeld
    exact noWatch listed isListed
  have below : (climbingBelow twoLocals).interpreter.current ≠ rootFrame := by decide
  have sized : (climbingBelow twoLocals).interpreter.frames.size = 2 := rfl
  have here : (climbingBelow twoLocals).interpreter.current = 1 := rfl
  obtain ⟨-, kept, blind⟩ := isolated_evaluation_is_isolated 5 climbingCode [[0x78]] [[0x78]]
    (show (climbingBelow twoLocals).interpreter.HostFree from free) framed below rfl unwatched rfl
  rw [here] at kept
  rw [sized] at blind
  have unnamed : ([0x79] : Text) ∉ [([0x78] : Text)] := by decide
  have held : (climbingBelow twoLocals).interpreter.currentFrame.bindings.get? [0x79] =
      some secondLocal := rfl
  have same : (climbingBelow oneLocal).veiled (calleeReach 2) =
      (climbingBelow twoLocals).veiled (calleeReach 2) := rfl
  have agree : ∀ name ∈ [([0x78] : Text)],
      (climbingBelow oneLocal).interpreter.currentFrame.bindings.get?
        name = (climbingBelow twoLocals).interpreter.currentFrame.bindings.get? name := by
    simp only [List.mem_singleton, forall_eq]
    rfl
  exact ⟨(kept [0x79] unnamed).trans held, (blind _ same agree).1⟩

end Eval

end LittleScript
