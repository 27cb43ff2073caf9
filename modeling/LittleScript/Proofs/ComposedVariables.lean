import LittleScript.Proofs.Composed
import LittleScript.Script.Evaluate

namespace LittleScript.Eval.Composed

/-!
# Variables and frames are composed

Assigning and watching variables, and running code in other frames, are composed of the steps of
evaluation.
-/

variable {σ : Type} {realm : Realm σ}

/-! ## Variables -/

/-- Asking the host about a value is a question to the world. -/
theorem mediate
    (name value : Text) :
    Composed realm fun _ => Eval.mediate name value := by
  refine look (fun _ _ _ => rfl) fun interpreter _ => ?_
  split
  · exact .pure _
  · refine .bind (.ask _) fun answer => ?_
    cases answer <;> exact .pure _

/-- A variable is defined in a frame that is within reach. -/
theorem defineVariable
    {frame : FrameId}
    (reached : realm.reach frame = true)
    (name value : Text) :
    Composed realm fun _ => Eval.defineVariable frame name value :=
  .step (.putVariable frame name { name, owner := frame, value } reached)

/-- A variable within reach is assigned, and its watch runs in its frame. -/
theorem assign
    {frame : FrameId}
    (reached : realm.reach frame = true)
    (name value : Text)
    (existing : Variable) :
    Composed realm fun run => Eval.assign run frame name value existing := by
  refine .bind (.step (.putVariable frame name { existing with value } reached)) fun _ =>
    .bind (.runWatch frame existing.watch reached) fun _ => inspect _ fun interpreter _ => ?_
  rw [interpreter.frame_veiled_of_reach reached]

/-- The frame to which an assignment is directed. -/
def assignedFrame (mode : Mode) (interpreter : Interpreter σ) : FrameId :=
  if mode == .global then rootFrame else interpreter.current

/-- The frame that an assignment names is within reach. -/
theorem reach_assignedFrame
    (mode : Mode)
    {interpreter : Interpreter σ}
    (held : realm.holds interpreter) :
    realm.reach (assignedFrame mode interpreter) = true := by
  rw [assignedFrame]
  split
  · exact realm.root
  · exact realm.current held

/-- The variable that an assignment finds, with the frame that holds it. -/
def assigned? (mode : Mode) (name : Text) (interpreter : Interpreter σ) :
    Option (FrameId × Variable) :=
  let frame := assignedFrame mode interpreter
  if mode == .own then ((interpreter.frame frame).bindings.get? name).map (frame, ·)
  else interpreter.lookup? frame name

/-- What a name means to an assignment does not hang on frames out of reach. -/
theorem assigned?_veiled
    (mode : Mode)
    (name : Text)
    {interpreter : Interpreter σ}
    (held : realm.holds interpreter) :
    assigned? mode name (interpreter.veiled realm.reach) = assigned? mode name interpreter := by
  have sameFrame :
      assignedFrame mode (interpreter.veiled realm.reach) = assignedFrame mode interpreter := rfl
  have reached := reach_assignedFrame mode held
  rw [assigned?, assigned?, sameFrame, interpreter.frame_veiled_of_reach reached,
    Interpreter.lookup?_veiled realm.root reached]

/-- A variable that is found from a frame within reach is held within reach. -/
theorem reach_of_lookup?
    {interpreter : Interpreter σ}
    {frame owner : FrameId}
    (reached : realm.reach frame = true)
    {name : Text}
    {found : Variable}
    (known : interpreter.lookup? frame name = some (owner, found)) :
    realm.reach owner = true := by
  rw [Interpreter.lookup?] at known
  split at known
  · cases known
    exact reached
  · obtain ⟨_, _, isRoot⟩ := Option.map_eq_some_iff.mp known
    cases isRoot
    exact realm.root

/-- The variable that an assignment finds is held within reach. -/
theorem reach_of_assigned?
    {mode : Mode}
    {name : Text}
    {interpreter : Interpreter σ}
    (held : realm.holds interpreter)
    {owner : FrameId}
    {found : Variable}
    (known : assigned? mode name interpreter = some (owner, found)) :
    realm.reach owner = true := by
  have reached := reach_assignedFrame mode held
  rw [assigned?] at known
  split at known
  · obtain ⟨_, _, isFrame⟩ := Option.map_eq_some_iff.mp known
    cases isFrame
    exact reached
  · exact reach_of_lookup? reached known

/-- Assign a variable that has been found, or a new one in a frame. -/
def assignIn (run : Run σ) (name value : Text) (mode : Mode) (frame : FrameId)
    (target : Option (FrameId × Variable)) : Eval σ (Option Text) := do
  if mode == .fresh then
    Eval.defineVariable frame name value
    return some value
  let owner := (target.map Prod.fst).getD frame
  let stored ← if owner == rootFrame then Eval.mediate name value else Pure.pure (some value)
  match stored, target with
  | none, _ => return none
  | some stored, none =>
      Eval.defineVariable frame name stored
      return some stored
  | some stored, some (owner, existing) =>
      return some (← Eval.assign run owner name stored existing)

/-- To assign is to define or to exchange a value, in a frame within reach. -/
theorem assignIn_composed
    (name value : Text)
    (mode : Mode)
    {frame : FrameId}
    (reached : realm.reach frame = true)
    {target : Option (FrameId × Variable)}
    (owned : ∀ owner found, target = some (owner, found) → realm.reach owner = true) :
    Composed realm fun run => assignIn run name value mode frame target := by
  have store : ∀ stored : Option Text, Composed realm fun run =>
      match stored, target with
      | none, _ => Pure.pure none
      | some stored, none =>
          Eval.defineVariable frame name stored >>= fun _ => Pure.pure (some stored)
      | some stored, some (owner, existing) =>
          Eval.assign run owner name stored existing >>= fun held =>
            Pure.pure (some held) := by
    intro stored
    cases stored with
    | none =>
        exact .pure _
    | some stored =>
        cases target with
        | none =>
            exact .bind (defineVariable reached ..) fun _ => .pure _
        | some found =>
            exact .bind (assign (owned found.1 found.2 rfl) ..) fun _ => .pure _
  simp only [assignIn]
  split
  · exact .bind (defineVariable reached ..) fun _ => .pure _
  · split
    · exact .bind (mediate name value) store
    · exact .bind (.pure _) store

/-- A variable is assigned where the mode directs it. -/
theorem setVariable
    (name value : Text)
    (mode : Mode) :
    Composed realm fun run => Eval.setVariable run name value mode := by
  have asAssignment : ∀ run : Run σ,
      Eval.setVariable run name value mode =
        if name.isEmpty then Pure.pure none
        else interpreter >>= fun interpreter =>
          assignIn run name value mode (assignedFrame mode interpreter)
            (assigned? mode name interpreter) := by
    intro run
    simp only [Eval.setVariable]
    split <;> rfl
  simp only [asAssignment]
  split
  · exact .pure _
  · refine look (fun run interpreter held => ?_) fun interpreter held => ?_
    · rw [assigned?_veiled mode name held]
      rfl
    · exact assignIn_composed name value mode (reach_assignedFrame mode held)
        fun _ _ => reach_of_assigned? held

/-- A watch is set on a variable that exists or is defined for it. -/
theorem watch
    (name code : Text) :
    Composed realm fun _ => Eval.watch name code := by
  have asTwoSteps :
      Eval.watch (σ := σ) name code = interpreter >>= fun interpreter =>
        (interpreter.visible? name).elim
          (change fun changed =>
            changed.putVariable interpreter.current name
              { name, owner := interpreter.current, value := [], watch := code })
          fun found => change fun interpreter =>
            interpreter.putVariable found.1 name { found.2 with watch := code } := by
    funext machine
    simp only [Eval.watch, change, interpreter_bind_apply]
    split
    case h_1 found =>
      rw [found]
      rfl
    case h_2 missing =>
      rw [missing]
      rfl
  rw [asTwoSteps]
  refine look (fun run interpreter held => ?_) fun interpreter held => ?_
  · rw [Interpreter.visible?_veiled realm.root (realm.current held)]
    rfl
  · cases known : interpreter.visible? name with
    | none =>
        exact .step (.putVariable _ _ _ (realm.current held))
    | some found =>
        exact .step (.putVariable _ _ _ (reach_of_lookup? (realm.current held) known))

/-- Variables are assigned one after the other. -/
theorem setVariables
    (mode : Mode)
    (pairs : List (Text × Text)) :
    Composed realm fun run => Eval.setVariables run mode pairs := by
  induction pairs with
  | nil =>
      exact .pure _
  | cons pair rest inductionHypothesis =>
      exact .bind (setVariable ..) fun _ => inductionHypothesis

/-! ## Other frames -/

/-- Where code may go up, the frame of the caller is within reach. -/
theorem upEvaluate
    (allowed : realm.allowed .upEvaluate)
    (code : Text) :
    Composed realm fun run => Eval.upEvaluate run code := by
  refine look (fun run interpreter held => ?_) fun interpreter held => ?_
  · rw [Interpreter.currentFrame_veiled (realm.current held)]
    rfl
  · split
    · exact .nested ..
    · rename_i parent isParent
      refine .inFrame _ _ (realm.up allowed held isParent) ?_ (.nested ..)
      intro _ isCurrent
      cases isCurrent
      exact realm.current held

/-- Where code may go down, the frame that it came up from is within reach. -/
theorem downEvaluate
    (allowed : realm.allowed .downEvaluate)
    (code : Text) :
    Composed realm fun run => Eval.downEvaluate run code := by
  refine .consult _ (fun _ _ _ => rfl) fun interpreter held => ?_
  split
  · exact .nested ..
  · rename_i frame isDown
    exact .inFrame _ _ (realm.down allowed held isDown) nofun (.nested ..)

/-- The root frame is within reach. -/
theorem topEvaluate
    (code : Text) :
    Composed realm fun run => Eval.topEvaluate run code := by
  refine .consult _ (fun _ _ _ => rfl) fun interpreter held => ?_
  split
  · exact .nested ..
  · refine .inFrame _ _ realm.root ?_ (.nested ..)
    intro _ isCurrent
    cases isCurrent
    exact realm.current held

end LittleScript.Eval.Composed
