import LittleScript.Proofs.ListRoundTrip
import LittleScript.Proofs.TrailingBlank
import LittleScript.Proofs.VariableReading

namespace LittleScript

/-!
# Lists that cannot be read

A reading that fails yields the elements up to its error, which stays pending.  The commands that
read a list go on with those elements all the same: they assign and define what they would if the
list had no others.  Code is not run any more, neither a watch nor a body.
-/

open Source (Cursor)

variable {σ : Type}

/-! ## Machines that agree -/

/-- Two machines with the same variables and commands, in the same place and world. -/
structure Machine.Agrees (first second : Machine σ) : Prop where
  world : second.world = first.world
  limits : second.interpreter.limits = first.interpreter.limits
  callbacks : second.interpreter.callbacks = first.interpreter.callbacks
  current : second.interpreter.current = first.interpreter.current
  functions : second.interpreter.functions = first.interpreter.functions
  commands : second.interpreter.commands = first.interpreter.commands
  active : second.interpreter.active = first.interpreter.active
  error : second.interpreter.error = first.interpreter.error
  bindings : ∀ id,
    (second.interpreter.frame id).bindings = (first.interpreter.frame id).bindings
  grown : first.interpreter.frames.size ≤ second.interpreter.frames.size

/-- A machine on which a command has met an error, and nested code may still be run. -/
structure Machine.Failed (machine : Machine σ) : Prop where
  pending : machine.interpreter.error ≠ none
  running : machine.interpreter.active ≠ []
  within : machine.interpreter.depth < machine.interpreter.limits.evaluations
  present : machine.interpreter.current < machine.interpreter.frames.size

namespace Machine

theorem Agrees.refl
    (machine : Machine σ) :
    machine.Agrees machine :=
  ⟨rfl, rfl, rfl, rfl, rfl, rfl, rfl, rfl, fun _ => rfl, Nat.le_refl _⟩

theorem Agrees.trans
    {first second third : Machine σ}
    (before : first.Agrees second)
    (behind : second.Agrees third) :
    first.Agrees third where
  world := behind.world.trans before.world
  limits := behind.limits.trans before.limits
  callbacks := behind.callbacks.trans before.callbacks
  current := behind.current.trans before.current
  functions := behind.functions.trans before.functions
  commands := behind.commands.trans before.commands
  active := behind.active.trans before.active
  error := behind.error.trans before.error
  bindings id := (behind.bindings id).trans (before.bindings id)
  grown := Nat.le_trans before.grown behind.grown

/-- A change of the current frame that keeps its variables. -/
theorem Agrees.updateCurrent
    (machine : Machine σ)
    {change : Frame → Frame}
    (same : ∀ frame : Frame, (change frame).bindings = frame.bindings) :
    machine.Agrees
      { machine with interpreter := machine.interpreter.updateCurrent change } := by
  refine ⟨rfl, rfl, rfl, rfl, rfl, rfl, rfl, rfl, fun id => ?_, Nat.le_of_eq ?_⟩
  · rw [Interpreter.updateCurrent, Interpreter.frame_updateFrame]
    split
    · exact same _
    · rfl
  · exact Array.size_modify.symm

theorem Failed.of_agrees
    {first second : Machine σ}
    (failed : first.Failed)
    (agrees : first.Agrees second) :
    second.Failed where
  pending := agrees.error ▸ failed.pending
  running := agrees.active ▸ failed.running
  within := by
    rw [Interpreter.depth, agrees.active, agrees.limits]
    exact failed.within
  present := agrees.current ▸ Nat.lt_of_lt_of_le failed.present agrees.grown

end Machine

namespace Eval

/-! ## Code is not run -/

/-- An error that is raised while another one is pending has no effect. -/
theorem raiseAt_of_pending
    (offset : Int)
    (reason : Reason)
    {machine : Machine σ}
    (pending : machine.interpreter.error ≠ none) :
    raiseAt offset reason machine = .ok () machine := by
  obtain ⟨error, isError⟩ := Option.ne_none_iff_exists'.mp pending
  rw [raiseAt, interpreter_bind_apply, isError]
  rfl

/-- Blanks are skipped without any effect while an error is pending. -/
theorem skipBlanks_apply_of_pending
    (reader : Reader)
    (cursor : Cursor)
    {machine : Machine σ}
    (pending : machine.interpreter.error ≠ none) :
    skipBlanks reader cursor machine =
      .ok (Source.skipBlanks reader.acrossLines cursor).cursor machine := by
  rw [skipBlanks]
  cases (Source.skipBlanks reader.acrossLines cursor).openComment with
  | none =>
      rfl
  | some start =>
      have refused : malformed reader start .openComment machine = .ok () machine := by
        rw [malformed]
        split
        · exact raiseAt_of_pending _ _ pending
        · exact raiseAt_of_pending _ _ pending
      exact bind_of_ok refused

/-- A list that is read while an error is pending has no elements. -/
theorem readList_of_pending
    (run : Run σ)
    (text : Text)
    {machine : Machine σ}
    (pending : machine.interpreter.error ≠ none) :
    readList run text machine = .ok [] machine := by
  have skipped := skipBlanks_apply_of_pending ⟨false, true⟩ (.start text) pending
  have read : words ⟨false, true⟩ run (text.length + 1) (.start text) machine =
      .ok (some ([], (Source.skipBlanks true (.start text)).cursor)) machine := by
    rw [words, bind_of_ok skipped]
    exact wordsFrom_of_pending run _ _ _ [] pending
  rw [readList, bind_of_ok read]
  rfl

/--
A script runs no command while an error is pending.  Only the outermost evaluation tells the host
about an error.
-/
theorem runCommands_of_failed
    (run : Run σ)
    (rounds : Nat)
    (code : Text)
    (ownResult : Bool)
    {machine : Machine σ}
    (failed : machine.Failed) :
    runCommands run rounds code ownResult false (entered code machine) =
      .ok [] (prepared ownResult false (entered code machine)) := by
  have within : (entered code machine).interpreter.depth ≤
      (entered code machine).interpreter.limits.evaluations := failed.within
  have pending : (prepared ownResult false (entered code machine)).interpreter.error ≠ none := by
    cases ownResult <;> exact failed.pending
  have nested : ∃ first second rest, (prepared ownResult false
      (entered code machine)).interpreter.active = first :: second :: rest := by
    obtain ⟨second, rest, isActive⟩ := List.exists_cons_of_ne_nil failed.running
    refine ⟨0, second, rest, ?_⟩
    cases ownResult <;> exact congrArg (0 :: ·) isActive
  have text : runText run rounds ⟨false, false⟩ code
      (prepared ownResult false (entered code machine)) =
        .ok [] (prepared ownResult false (entered code machine)) := by
    rw [runText, bind_of_ok (skipBlanks_apply_of_pending _ _ pending)]
    exact commands_of_pending run rounds _ _ _ _ [] pending
  have told : reportError (prepared ownResult false (entered code machine)) =
      .ok () (prepared ownResult false (entered code machine)) := by
    obtain ⟨first, second, rest, isActive⟩ := nested
    rw [reportError, interpreter_bind_apply, isActive]
    rfl
  rw [runCommands_of_within run rounds code ownResult false within, bind_of_ok text,
    bind_of_ok told]
  rfl

/-- A nested script does nothing while an error is pending. -/
theorem evaluate_of_failed
    (fuel : Nat)
    (code : Text)
    {machine : Machine σ}
    (failed : machine.Failed) :
    evaluate (fuel + 1) code false machine = .ok [] machine := by
  have isNested : machine.interpreter.active.isEmpty = false := by
    simpa using failed.running
  have ran := runCommands_of_failed (evaluate fuel) fuel code false failed
  have body : scriptBody (evaluate fuel) fuel code false false (entered code machine) =
      .ok [] (entered code machine) := by
    rw [scriptBody_eq, bind_of_ok ran]
    rfl
  have back : left machine (entered code machine) = machine := by
    simp [left, entered, isNested]
  rw [evaluate, script_apply, isNested, ensuring, body]
  simp only [back]

/-- Taking a result leaves the variables and the commands. -/
theorem takeResult_agrees
    (machine : Machine σ) :
    ∃ result after, takeResult machine = .ok result after ∧ machine.Agrees after := by
  cases result : machine.interpreter.currentFrame.result with
  | none =>
      refine ⟨none, machine, ?_, .refl machine⟩
      rw [takeResult, interpreter_bind_apply, result]
      rfl
  | some provided =>
      have same : machine.Agrees
          { machine with
            interpreter := machine.interpreter.updateCurrent fun frame =>
              { frame with result := none, stopping := false } } :=
        .updateCurrent machine fun _ => rfl
      refine ⟨some provided, _, ?_, same⟩
      rw [takeResult, interpreter_bind_apply, result]
      rfl

/-- A nested script that owns the result only takes what is pending in its frame. -/
theorem evaluate_own_of_failed
    (fuel : Nat)
    (code : Text)
    {machine : Machine σ}
    (failed : machine.Failed) :
    ∃ value after, evaluate (fuel + 1) code true machine = .ok value after ∧
      machine.Agrees after := by
  have isNested : machine.interpreter.active.isEmpty = false := by
    simpa using failed.running
  have ran := runCommands_of_failed (evaluate fuel) fuel code true failed
  obtain ⟨result, taken, takes, agrees⟩ :=
    takeResult_agrees (prepared true false (entered code machine))
  have body : scriptBody (evaluate fuel) fuel code true false (entered code machine) =
      .ok (result.getD []) taken := by
    rw [scriptBody_eq, bind_of_ok ran]
    exact bind_of_ok takes
  have starts : (entered code machine).Agrees (prepared true false (entered code machine)) :=
    .updateCurrent (entered code machine) fun _ => rfl
  have whole := starts.trans agrees
  refine ⟨result.getD [], left machine taken, ?_, ?_⟩
  · rw [evaluate, script_apply, isNested, ensuring, body]
  · exact { whole with active := rfl }

/-- A watch only takes what is pending in its frame. -/
theorem runWatch_of_failed
    (fuel : Nat)
    (code : Text)
    {frame : FrameId}
    {machine : Machine σ}
    (failed : machine.Failed)
    (present : frame < machine.interpreter.frames.size) :
    ∃ after, runWatch (evaluate (fuel + 1)) frame code machine = .ok () after ∧
      machine.Agrees after := by
  rw [runWatch]
  split
  · have failedThere : Machine.Failed
        { machine with interpreter := { machine.interpreter with current := frame } } :=
      { failed with present }
    obtain ⟨value, ended, ran, agrees⟩ := evaluate_own_of_failed fuel code failedThere
    refine ⟨{ ended with interpreter :=
      { ended.interpreter with current := machine.interpreter.current } }, ?_, ?_⟩
    · rw [inspect_bind_apply, change_bind_apply, ensuring, bind_of_ok ran]
      rfl
    · exact { agrees with current := rfl }
  · exact ⟨machine, rfl, .refl machine⟩

end Eval

/-! ## What is written -/

/-- A change that a command makes, or a frame that it makes and releases, which is only logged. -/
inductive Effect where
  | assign (mode : Eval.Mode) (name value : Text)
  | define (name : Text) (parameters : List Text) (body : Text)
  | visit

namespace Effect

open Eval

/-- Make a change; the host is asked about the assignment of a global variable. -/
def make : Effect → Eval σ Unit
  | assign mode name value => do
      if name.isEmpty then return
      let interpreter ← interpreter
      let _ ← store (owner mode name interpreter) name value
  | define name parameters body =>
      change fun interpreter => interpreter.define name (.script parameters body)
  | visit => do
      modify (frameRecord "push frame")
      modify (frameRecord "pop frame")

/-- Make changes one after the other. -/
def makeAll : List Effect → Eval σ Unit
  | [] => return
  | effect :: rest => do
      effect.make
      makeAll rest

/-- The changes that assign values to names one after the other. -/
def assignAll (pairs : List (Text × Text)) : List Effect :=
  pairs.map fun pair => assign .visible pair.1 pair.2

end Effect

namespace Eval

/-- Machines that agree put a variable into the same frame. -/
theorem agrees_putVariable
    {first second : Machine σ}
    (agrees : first.Agrees second)
    {id : FrameId}
    (present : id < first.interpreter.frames.size)
    (name : Text)
    (entry : Variable)
    (world : World σ) :
    Machine.Agrees ⟨first.interpreter.putVariable id name entry, world⟩
      ⟨second.interpreter.putVariable id name entry, world⟩ := by
  refine ⟨rfl, agrees.limits, agrees.callbacks, agrees.current, agrees.functions,
    agrees.commands, agrees.active, agrees.error, fun other => ?_, ?_⟩
  · have presentSecond := Nat.lt_of_lt_of_le present agrees.grown
    simp only [Interpreter.putVariable, Interpreter.frame_updateFrame]
    by_cases same : id = other
    · subst same
      simp [present, presentSecond, agrees.bindings]
    · simp [same, agrees.bindings]
  · simpa [Interpreter.putVariable, Interpreter.updateFrame] using agrees.grown

/-- A name means the same on machines that agree. -/
theorem assigned?_agrees
    {first second : Machine σ}
    (agrees : first.Agrees second)
    (mode : Mode)
    (name : Text) :
    Composed.assigned? mode name second.interpreter =
      Composed.assigned? mode name first.interpreter := by
  have sameFrame : Composed.assignedFrame mode second.interpreter =
      Composed.assignedFrame mode first.interpreter := by
    rw [Composed.assignedFrame, Composed.assignedFrame, agrees.current]
  simp only [Composed.assigned?, sameFrame, Interpreter.lookup?, agrees.bindings]

theorem owner_agrees
    {first second : Machine σ}
    (agrees : first.Agrees second)
    (mode : Mode)
    (name : Text) :
    owner mode name second.interpreter = owner mode name first.interpreter := by
  have sameFrame : Composed.assignedFrame mode second.interpreter =
      Composed.assignedFrame mode first.interpreter := by
    rw [Composed.assignedFrame, Composed.assignedFrame, agrees.current]
  simp only [owner, assigned?_agrees agrees, sameFrame]

theorem entryAt_agrees
    {first second : Machine σ}
    (agrees : first.Agrees second)
    (id : FrameId)
    (name : Text) :
    second.interpreter.entryAt id name = first.interpreter.entryAt id name := by
  simp only [Interpreter.entryAt, agrees.bindings]

theorem approve_agrees
    {first second : Machine σ}
    (agrees : first.Agrees second)
    (frame : FrameId)
    (name value : Text) :
    ∃ answer world, approve frame name value first = .ok answer { first with world } ∧
      approve frame name value second = .ok answer { second with world } := by
  rw [approve]
  split
  · cases handled : first.interpreter.callbacks.setVariable with
    | none =>
        have handledSecond := agrees.callbacks ▸ handled
        exact ⟨some value, first.world, mediate_of_unhandled name value handled,
          agrees.world ▸ mediate_of_unhandled name value handledSecond⟩
    | some handle =>
        have handledSecond := agrees.callbacks ▸ handled
        exact ⟨_, _, mediate_of_handled name value handled,
          agrees.world ▸ mediate_of_handled name value handledSecond⟩
  · exact ⟨some value, first.world, rfl, by rw [← agrees.world]; rfl⟩

/-- The frame in which a failed machine stores a value is there. -/
theorem owner_present
    {machine : Machine σ}
    (failed : machine.Failed)
    (mode : Mode)
    (name : Text) :
    owner mode name machine.interpreter < machine.interpreter.frames.size := by
  rcases owner_root_or_current mode name machine.interpreter with isRoot | isCurrent
  · rw [isRoot]
    exact Nat.lt_of_le_of_lt (Nat.zero_le _) failed.present
  · rw [isCurrent]
    exact failed.present

/-- Storing a value does the same on machines that agree. -/
theorem store_agrees
    {first second : Machine σ}
    (failed : first.Failed)
    (agrees : first.Agrees second)
    (mode : Mode)
    (name value : Text) :
    ∃ stored made other,
      store (owner mode name first.interpreter) name value first = .ok stored made ∧
        store (owner mode name second.interpreter) name value second = .ok stored other ∧
        owner mode name second.interpreter < other.interpreter.frames.size ∧
        made.Agrees other ∧ made.Failed := by
  have present := owner_present (failed.of_agrees agrees) mode name
  have sameOwner := owner_agrees agrees mode name
  have sameEntry := entryAt_agrees agrees (owner mode name first.interpreter) name
  obtain ⟨answer, world, approved, approvedSecond⟩ :=
    approve_agrees agrees (owner mode name first.interpreter) name value
  rw [sameOwner] at present
  rw [sameOwner]
  simp only [store]
  rw [bind_of_ok approved, bind_of_ok approvedSecond]
  cases answer with
  | none =>
      exact ⟨none, _, _, rfl, rfl, present, { agrees with world := rfl }, { failed with }⟩
  | some stored =>
      refine ⟨some stored, _, _, rfl, rfl, ?_, ?_, ?_⟩
      · simpa [Interpreter.putVariable, Interpreter.updateFrame] using present
      · simp only [sameEntry]
        exact agrees_putVariable agrees (owner_present failed mode name) name _ world
      · refine { failed with present := ?_ }
        simpa [Interpreter.putVariable, Interpreter.updateFrame] using failed.present

/-- An assignment stores its value, and nothing else happens while an error is pending. -/
theorem setVariable_of_failed
    (fuel : Nat)
    (name value : Text)
    {mode : Mode}
    (notFresh : mode ≠ .fresh)
    {first second : Machine σ}
    (failed : first.Failed)
    (agrees : first.Agrees second) :
    ∃ held made after,
      (Effect.assign mode name value).make first = .ok () made ∧
        setVariable (evaluate (fuel + 1)) name value mode second = .ok held after ∧
        made.Agrees after ∧ made.Failed := by
  cases unnamed : name.isEmpty with
  | true =>
      refine ⟨none, first, second, ?_, ?_, agrees, failed⟩
      · simp only [Effect.make, unnamed, if_true]
        rfl
      · simp only [setVariable, unnamed, if_true]
        rfl
  | false =>
      obtain ⟨stored, made, other, stores, storesSecond, present, agreesStored, failedStored⟩ :=
        store_agrees failed agrees mode name value
      have makes : (Effect.assign mode name value).make first = .ok () made := by
        simp only [Effect.make, unnamed, Bool.false_eq_true, if_false, interpreter_bind_apply]
        rw [bind_of_ok stores]
        rfl
      rw [setVariable_apply _ unnamed value notFresh, bind_of_ok storesSecond]
      cases stored with
      | none =>
          exact ⟨none, made, other, makes, rfl, agreesStored, failedStored⟩
      | some stored =>
          cases known : Composed.assigned? mode name second.interpreter with
          | none =>
              exact ⟨some stored, made, other, makes, rfl, agreesStored, failedStored⟩
          | some found =>
              have isOwner : owner mode name second.interpreter = found.1 := by
                rw [owner, known]
                rfl
              obtain ⟨after, watched, agreesAfter⟩ := runWatch_of_failed fuel found.2.watch
                (failedStored.of_agrees agreesStored) (isOwner ▸ present)
              exact ⟨_, made, after, makes, (bind_of_ok watched).trans rfl,
                agreesStored.trans agreesAfter, failedStored⟩

/-- Assignments store their values one after the other. -/
theorem setVariables_of_failed
    (fuel : Nat)
    {first second : Machine σ}
    (failed : first.Failed)
    (agrees : first.Agrees second)
    (pairs : List (Text × Text)) :
    ∃ made after, Effect.makeAll (Effect.assignAll pairs) first = .ok () made ∧
      setVariables (evaluate (fuel + 1)) .visible pairs second = .ok () after ∧
      made.Agrees after := by
  induction pairs generalizing first second with
  | nil =>
      exact ⟨first, second, rfl, rfl, agrees⟩
  | cons pair rest inductionHypothesis =>
      obtain ⟨held, between, other, makes, sets, agreesBetween, failedBetween⟩ :=
        setVariable_of_failed fuel pair.1 pair.2 (show Mode.visible ≠ .fresh by decide) failed agrees
      obtain ⟨made, after, makesRest, setsRest, agreesAfter⟩ :=
        inductionHypothesis failedBetween agreesBetween
      exact ⟨made, after, (bind_of_ok makes).trans makesRest, (bind_of_ok sets).trans setsRest,
        agreesAfter⟩

/-! ## Fresh frames -/

/-- Copies of variables in a new frame; an empty name has none. -/
theorem copies_pushed
    (value : Text → Text)
    (id : FrameId)
    (names : List Text)
    (frame : Frame) :
    ∃ bindings : Table Variable,
      (∀ name, (bindings.get? name).map Variable.value =
        if name ∈ names ∧ name ≠ [] then some (value name)
        else (frame.bindings.get? name).map Variable.value) ∧
      ∀ (run : Run σ) (machine : Machine σ), machine.interpreter.frames.size = id →
        setVariables run .fresh (names.zip (names.map value)) (pushed frame machine) =
          .ok () (pushed { frame with bindings } machine) := by
  induction names generalizing frame with
  | nil =>
      exact ⟨frame.bindings, fun name => by simp, fun _ _ _ => rfl⟩
  | cons copied rest inductionHypothesis =>
      cases unnamed : copied.isEmpty with
      | true =>
          obtain ⟨bindings, holds, puts⟩ := inductionHypothesis frame
          have isEmpty : copied = [] := by simpa using unnamed
          refine ⟨bindings, fun name => ?_, fun run machine isNext => ?_⟩
          · rw [holds, isEmpty]
            by_cases same : name = []
            · simp [same]
            · simp [same]
          · rw [← puts run machine isNext]
            simp only [List.map_cons, List.zip_cons_cons, setVariables, setVariable, unnamed]
            rfl
      | false =>
          obtain ⟨bindings, holds, puts⟩ := inductionHypothesis
            { frame with
              bindings := frame.bindings.insert copied
                { name := copied, owner := id, value := value copied } }
          have named : copied ≠ [] := by simpa using unnamed
          refine ⟨bindings, fun name => ?_, fun run machine isNext => ?_⟩
          · rw [holds, Table.get?_insert]
            by_cases same : copied = name
            · subst same
              simp [named]
            · simp [Ne.symm same]
          · subst isNext
            rw [← puts run machine rfl, ← putVariable_pushed]
            simp only [List.map_cons, List.zip_cons_cons, setVariables, setVariable, unnamed]
            rfl

/-- The value of a name in a fresh frame to which variables have been copied. -/
def copiedValue (copied : List Text) (interpreter : Interpreter σ) (name : Text) : Text :=
  if name ∈ copied ∧ name ≠ [] then interpreter.valueOf name
  else (((interpreter.frame rootFrame).bindings.get? name).map Variable.value).getD []

theorem valueOf_pushed
    {machine : Machine σ}
    (rooted : 0 < machine.interpreter.frames.size)
    {copied : List Text}
    {frame : Frame}
    (holds : ∀ name, (frame.bindings.get? name).map Variable.value =
      if name ∈ copied ∧ name ≠ [] then some (machine.interpreter.valueOf name) else none)
    (name : Text) :
    (pushed frame machine).interpreter.valueOf name =
      copiedValue copied machine.interpreter name := by
  have here : (pushed frame machine).interpreter.frame machine.interpreter.frames.size = frame := by
    have added := machine.interpreter.frame_addFrame machine.interpreter.frames.size frame
    rwa [if_pos rfl] at added
  have root : (pushed frame machine).interpreter.frame rootFrame =
      machine.interpreter.frame rootFrame := by
    have added := machine.interpreter.frame_addFrame rootFrame frame
    rwa [if_neg (show rootFrame ≠ machine.interpreter.frames.size from Nat.ne_of_lt rooted)] at added
  have isCurrent : (pushed frame machine).interpreter.current =
      machine.interpreter.frames.size := rfl
  have holdsName := holds name
  rw [Interpreter.valueOf, Interpreter.visible?, Interpreter.lookup?, isCurrent, here, root,
    copiedValue]
  by_cases isCopied : name ∈ copied ∧ name ≠ []
  · rw [if_pos isCopied] at holdsName ⊢
    obtain ⟨entry, isEntry, isValue⟩ := Option.map_eq_some_iff.mp holdsName
    rw [isEntry]
    exact isValue
  · rw [if_neg isCopied] at holdsName ⊢
    rw [Option.map_eq_none_iff.mp holdsName]
    cases (machine.interpreter.frame rootFrame).bindings.get? name <;> rfl

end Eval

/-- What is made of a fresh frame: the variables that are copied out of it. -/
def Effect.copies (imports exports : List Text) (interpreter : Interpreter σ) : List Effect :=
  .visit :: assignAll
    (exports.zip (exports.map (Eval.copiedValue imports interpreter)))

namespace Eval

/-- A frame that is made and released again leaves only its log records. -/
theorem visit_agrees
    (frame : Frame)
    (machine : Machine σ) :
    ∃ visited, Effect.visit.make machine = .ok () visited ∧
      visited.Agrees (popped machine (pushed frame machine)) := by
  refine ⟨_, rfl, rfl, rfl, rfl, rfl, rfl, rfl, rfl, rfl, fun id => ?_, ?_⟩
  · have released := (machine.interpreter.addFrame frame).2.frame_updateFrame
      machine.interpreter.frames.size id Frame.release
    refine (congrArg Frame.bindings released).trans ?_
    rw [machine.interpreter.frame_addFrame]
    by_cases isNew : id = machine.interpreter.frames.size
    · have outside : machine.interpreter.frame id = {} := by
        simp [Interpreter.frame, isNew]
      have known : machine.interpreter.frames.size <
          (machine.interpreter.addFrame frame).2.frames.size := by
        simp [Interpreter.addFrame]
      rw [if_pos ⟨isNew.symm, isNew ▸ known⟩]
      exact (congrArg Frame.bindings outside).symm
    · rw [if_neg fun both => isNew both.1.symm, if_neg isNew]
      rfl
  · simp [popped, pushed, frameRecord, Interpreter.updateFrame, Interpreter.addFrame]

/-- While an error is pending, a fresh frame only copies the variables back and forth. -/
theorem isolatedEvaluate_of_failed
    (fuel : Nat)
    (code : Text)
    (imports exports : List Text)
    {machine : Machine σ}
    (failed : machine.Failed)
    (unasked : machine.interpreter.callbacks.getVariable = none) :
    ∃ written after,
      Effect.makeAll (Effect.copies imports exports machine.interpreter) machine =
          .ok () written ∧
        isolatedEvaluate (evaluate (fuel + 1)) code imports exports machine = .ok [] after ∧
        written.Agrees after := by
  have rooted : 0 < machine.interpreter.frames.size := Nat.lt_of_le_of_lt (Nat.zero_le _)
    failed.present
  obtain ⟨bindings, holds, puts⟩ := copies_pushed (σ := σ) machine.interpreter.valueOf
    machine.interpreter.frames.size imports { parent := some rootFrame }
  have failedInside : (pushed { parent := some rootFrame, bindings } machine).Failed :=
    { failed with present := by simp [pushed, frameRecord, Interpreter.addFrame] }
  have values : exports.map
        (pushed { parent := some rootFrame, bindings } machine).interpreter.valueOf =
      exports.map (copiedValue imports machine.interpreter) :=
    List.map_congr_left fun name _ =>
      valueOf_pushed rooted (fun name => by rw [holds]; rfl) name
  have body : (setVariables (evaluate (fuel + 1)) .fresh
        (imports.zip (imports.map machine.interpreter.valueOf)) >>= fun _ =>
          evaluate (fuel + 1) code false >>= fun value =>
            getVariables exports >>= fun exported => pure (value, exported))
        (pushed { parent := some rootFrame } machine) =
      .ok ([], exports.map (copiedValue imports machine.interpreter))
        (pushed { parent := some rootFrame, bindings } machine) := by
    have unaskedInside :
        (pushed { parent := some rootFrame, bindings } machine).interpreter.callbacks.getVariable =
          none := unasked
    rw [bind_of_ok (puts _ machine rfl), bind_of_ok (evaluate_of_failed fuel code failedInside),
      ← values]
    exact bind_of_ok (getVariables_apply unaskedInside exports)
  obtain ⟨visited, visits, agrees⟩ :=
    visit_agrees { parent := some rootFrame, bindings } machine
  have failedAfter : visited.Failed := by
    cases visits
    exact { failed with }
  obtain ⟨written, after, makes, sets, agreesAfter⟩ := setVariables_of_failed fuel failedAfter
    agrees (exports.zip (exports.map (copiedValue imports machine.interpreter)))
  refine ⟨written, after, (bind_of_ok visits).trans makes, ?_, agreesAfter⟩
  have inside := (inNewFrame_apply { parent := some rootFrame } _ machine).trans
    (ensuring_of_ok (popped machine) body)
  rw [isolatedEvaluate, bind_of_ok (getVariables_apply unasked imports), bind_of_ok inside]
  exact bind_of_ok sets

/-! ## Commands that read lists -/

open Command (globalWord loopParts)

/-- Where an `append` puts its list, and what it appends. -/
inductive AppendsTo : List Text → Mode → Text → List Text → Prop where
  | visible
      {name : Text}
      (undirected : name ≠ globalWord)
      (first : Text)
      (rest : List Text) :
      AppendsTo (name :: first :: rest) .visible name (first :: rest)
  | global
      (name first : Text)
      (rest : List Text) :
      AppendsTo (globalWord :: name :: first :: rest) .global name (first :: rest)

/--
A command that is called on one machine reads a text as a list on another, and makes changes with
the elements.
-/
inductive ReadsList (run : Run σ) : Builtin → List Text → Machine σ → Text → Machine σ →
    (List Text → Interpreter σ → List Effect) → Prop where
  | append
      {arguments values : List Text}
      {mode : Mode}
      {name text : Text}
      {start machine : Machine σ}
      (appends : AppendsTo arguments mode name values)
      (held : getVariable name start = .ok text machine) :
      ReadsList run .append arguments start text machine fun items _ =>
        [.assign mode name (ListText.write (items ++ values))]
  | mapNames
      (text first : Text)
      (rest : List Text)
      (start : Machine σ) :
      ReadsList run .mapNames (text :: first :: rest) start text start fun items _ =>
        Effect.assignAll ((first :: rest).zip
          ((List.range (first :: rest).length).map fun position => items.getD position []))
  | define
      (name text body : Text)
      (rest : List Text)
      (start : Machine σ) :
      ReadsList run .defineFunction (name :: text :: body :: rest) start text start
        fun items _ => [.define name items body]
  | defineUnnamed
      (text body : Text)
      (start : Machine σ) :
      ReadsList run .defineFunction [text, body] start text start fun items _ =>
        [.define (start.interpreter.unusedName (Text.ofString "anonymous-function")) items body]
  | forEach
      {arguments : List Text}
      {name text body : Text}
      (parts : loopParts "i" arguments = some (name, text, body))
      (start : Machine σ) :
      ReadsList run .forEach arguments start text start fun items _ =>
        (items.take 1).map (.assign .own name)
  | isolatedShared
      (text code : Text)
      (start : Machine σ) :
      ReadsList run .isolatedEvaluate [text, code] start text start fun items failed =>
        Effect.copies items items failed
  | isolatedImports
      (text exports code : Text)
      (rest : List Text)
      (start : Machine σ) :
      ReadsList run .isolatedEvaluate (text :: exports :: code :: rest) start text start
        fun items failed => Effect.copies items [] failed
  | isolatedExports
      {imports : Text}
      {imported : List Text}
      {start machine : Machine σ}
      (read : readList run imports start = .ok imported machine)
      (text code : Text)
      (rest : List Text) :
      ReadsList run .isolatedEvaluate (imports :: text :: code :: rest) start text machine
        fun items failed => Effect.copies imported items failed

namespace AppendsTo

variable {arguments values : List Text} {mode : Mode} {name : Text}

theorem notFresh
    (appends : AppendsTo arguments mode name values) :
    mode ≠ .fresh := by
  cases appends <;> decide

/-- An `append` reads the variable, appends to its list and assigns it. -/
theorem append_eq
    (appends : AppendsTo arguments mode name values)
    (run : Run σ) :
    Command.append run arguments = do
      let items ← readList run (← getVariable name)
      let extended := ListText.write (items ++ values)
      let _ ← setVariable run name extended mode
      return .value extended := by
  cases appends with
  | visible undirected first rest =>
      simp only [Command.append, beq_iff_eq, undirected, if_false, Command.appendTo]
  | global name first rest =>
      simp only [Command.append, beq_self_eq_true, if_true, Command.appendTo]

end AppendsTo

/-- A loop over the elements assigns the first one and ends. -/
theorem eachItem_of_failed
    (fuel : Nat)
    (name body : Text)
    (items : List Text)
    {machine : Machine σ}
    (failed : machine.Failed) :
    ∃ made after,
      Effect.makeAll ((items.take 1).map (.assign .own name)) machine = .ok () made ∧
        Command.eachItem (evaluate (fuel + 1)) name body items [] machine = .ok [] after ∧
        made.Agrees after := by
  cases items with
  | nil =>
      exact ⟨machine, machine, rfl, rfl, .refl machine⟩
  | cons item rest =>
      obtain ⟨held, made, after, makes, sets, agrees, failedMade⟩ :=
        setVariable_of_failed fuel name item (show Mode.own ≠ .fresh by decide) failed
          (.refl machine)
      have failedAfter := failedMade.of_agrees agrees
      have interrupted : Command.isInterrupted after = .ok true after := by
        have isError : after.interpreter.error.isSome = true :=
          Option.isSome_iff_ne_none.mpr failedAfter.pending
        simp only [Command.isInterrupted, hasError_bind_apply, isError, Bool.true_or]
        rfl
      refine ⟨made, after, (bind_of_ok makes).trans rfl, ?_, agrees⟩
      rw [Command.eachItem, bind_of_ok sets,
        bind_of_ok (evaluate_of_failed fuel body failedAfter)]
      exact bind_of_ok interrupted

/-- A command whose list could not be read goes on with what has been read. -/
theorem callBuiltin_of_failed
    (fuel rounds : Nat)
    {command : Builtin}
    {arguments : List Text}
    {start machine : Machine σ}
    {text : Text}
    {effects : List Text → Interpreter σ → List Effect}
    (reads : ReadsList (evaluate (fuel + 1)) command arguments start text machine effects)
    {items : List Text}
    {failed : Machine σ}
    (read : readList (evaluate (fuel + 1)) text machine = .ok items failed)
    (stopped : failed.Failed)
    (unasked : command = .isolatedEvaluate →
      failed.interpreter.callbacks.getVariable = none) :
    ∃ reply written after,
      callBuiltin (evaluate (fuel + 1)) rounds command arguments start = .ok reply after ∧
        Effect.makeAll (effects items failed.interpreter) failed = .ok () written ∧
        written.Agrees after := by
  cases reads with
  | @append arguments values mode name text start machine appends held =>
      obtain ⟨stored, written, after, makes, sets, agrees, -⟩ := setVariable_of_failed fuel name
        (ListText.write (items ++ values)) appends.notFresh stopped (.refl failed)
      refine ⟨.value (ListText.write (items ++ values)), written, after, ?_,
        (bind_of_ok makes).trans rfl, agrees⟩
      rw [callBuiltin, appends.append_eq, bind_of_ok held, bind_of_ok read]
      exact bind_of_ok sets
  | mapNames text first rest =>
      obtain ⟨written, after, makes, sets, agrees⟩ := setVariables_of_failed fuel stopped
        (.refl failed) ((first :: rest).zip
          ((List.range (first :: rest).length).map fun position => items.getD position []))
      refine ⟨.value [], written, after, ?_, makes, agrees⟩
      rw [callBuiltin, Command.mapNames, bind_of_ok read]
      exact bind_of_ok sets
  | define name text body rest =>
      refine ⟨.value name, _, _, ?_, rfl, .refl _⟩
      rw [callBuiltin, Command.defineFunction, bind_of_ok read]
      rfl
  | defineUnnamed text body =>
      let name := start.interpreter.unusedName (Text.ofString "anonymous-function")
      refine ⟨.value name, _, _, ?_, rfl, .refl _⟩
      rw [callBuiltin, Command.defineFunction, Command.anonymousName, inspect_bind_apply,
        bind_of_ok read]
      rfl
  | @forEach arguments name text body parts =>
      obtain ⟨written, after, makes, loops, agrees⟩ :=
        eachItem_of_failed fuel name body items stopped
      refine ⟨.value (ListText.write []), written, after, ?_, makes, agrees⟩
      simp only [callBuiltin, Command.forEach, parts]
      rw [bind_of_ok read]
      exact bind_of_ok loops
  | isolatedShared text code =>
      obtain ⟨written, after, makes, ran, agrees⟩ :=
        isolatedEvaluate_of_failed fuel code items items stopped (unasked rfl)
      refine ⟨.value [], written, after, ?_, makes, agrees⟩
      rw [callBuiltin, Command.isolated, bind_of_ok read]
      exact bind_of_ok ran
  | isolatedImports text exports code rest =>
      obtain ⟨written, after, makes, ran, agrees⟩ := isolatedEvaluate_of_failed fuel
        ((code :: rest).getLastD []) items [] stopped (unasked rfl)
      refine ⟨.value [], written, after, ?_, makes, agrees⟩
      rw [callBuiltin, Command.isolated, bind_of_ok read,
        bind_of_ok (readList_of_pending _ exports stopped.pending)]
      · exact bind_of_ok ran
      · simp
  | isolatedExports imported text code rest =>
      obtain ⟨written, after, makes, ran, agrees⟩ := isolatedEvaluate_of_failed fuel
        ((code :: rest).getLastD []) _ items stopped (unasked rfl)
      refine ⟨.value [], written, after, ?_, makes, agrees⟩
      rw [callBuiltin, Command.isolated, bind_of_ok imported, bind_of_ok read]
      · exact bind_of_ok ran
      · simp

/-- An assignment that is made leaves its value, if the host does not listen. -/
theorem held_of_made
    {mode : Mode}
    {name value : Text}
    (named : name ≠ [])
    {machine made : Machine σ}
    (present : owner mode name machine.interpreter < machine.interpreter.frames.size)
    (unheard : machine.interpreter.callbacks.setVariable = none)
    (makes : (Effect.assign mode name value).make machine = .ok () made) :
    ((made.interpreter.frame (owner mode name machine.interpreter)).bindings.get? name).map
      Variable.value = some value := by
  have notEmpty : name.isEmpty = false := by simpa using named
  have approved := approve_of_unheard (owner mode name machine.interpreter) name value unheard
  simp only [Effect.make, notEmpty, Bool.false_eq_true, if_false, interpreter_bind_apply, store]
    at makes
  obtain ⟨stored, between, stores, ends⟩ := bind_eq_ok makes
  rw [bind_of_ok approved] at stores
  cases stores
  cases ends
  exact congrArg (Option.map Variable.value)
    ((machine.interpreter.get?_putVariable present name _ _).trans (if_pos rfl))

/-- A text that could not be read as a list is not the text of a list. -/
theorem ne_written_of_failed
    (run : Run σ)
    {text : Text}
    {machine failed : Machine σ}
    (noError : machine.interpreter.error = none)
    {items : List Text}
    (read : readList run text machine = .ok items failed)
    (stopped : failed.Failed)
    (elements : List Text) :
    ListText.write elements ≠ text := by
  rintro rfl
  have written := words_written ⟨false, true⟩ run _ machine noError elements (Nat.lt_succ_self _)
  rw [readList, bind_of_ok written] at read
  cases read
  exact stopped.pending noError

/--
Whatever stops the reading of a list, the command that reads it goes on with the elements up to
there: it makes the changes that it would make if the list had no others, and these are all its
changes after the error, for neither watches nor bodies run any more.  So an `append` puts another
text into a variable whose own text could not be read.
-/
theorem failed_list_is_used
    (fuel rounds : Nat)
    {command : Builtin}
    {arguments : List Text}
    {start machine : Machine σ}
    {text : Text}
    {effects : List Text → Interpreter σ → List Effect}
    (reads : ReadsList (evaluate (fuel + 1)) command arguments start text machine effects)
    {items : List Text}
    {failed : Machine σ}
    (read : readList (evaluate (fuel + 1)) text machine = .ok items failed)
    (stopped : failed.Failed)
    (unasked : command = .isolatedEvaluate →
      failed.interpreter.callbacks.getVariable = none) :
    ∃ reply written after,
      callBuiltin (evaluate (fuel + 1)) rounds command arguments start = .ok reply after ∧
        Effect.makeAll (effects items failed.interpreter) failed = .ok () written ∧
        written.Agrees after ∧
        (command = .append → machine.interpreter.error = none →
          ∀ mode name value, effects items failed.interpreter = [.assign mode name value] →
            value ≠ text ∧
              (name ≠ [] → failed.interpreter.callbacks.setVariable = none →
                ((after.interpreter.frame (owner mode name failed.interpreter)).bindings.get?
                  name).map Variable.value = some value)) := by
  obtain ⟨reply, written, after, called, makes, agrees⟩ :=
    callBuiltin_of_failed fuel rounds reads read stopped unasked
  refine ⟨reply, written, after, called, makes, agrees, ?_⟩
  rintro rfl noError mode name value single
  cases reads with
  | append appends held =>
      simp only [List.cons.injEq, Effect.assign.injEq, and_true] at single
      obtain ⟨rfl, rfl, rfl⟩ := single
      refine ⟨ne_written_of_failed _ noError read stopped _, fun named unheard => ?_⟩
      obtain ⟨_, between, made, ends⟩ := bind_eq_ok makes
      cases ends
      rw [agrees.bindings]
      exact held_of_made named (owner_present stopped _ _) unheard made

/-- A machine that runs a script, and whose variable `x` holds an open brace. -/
def bracedMachine : Machine Unit where
  interpreter :=
    { frames := #[{
        bindings := ({} : Table Variable).insert [0x78]
          { name := [0x78], owner := rootFrame, value := Text.ofString "\x7b a" } }]
      active := [0] }
  world := { host := () }

/-- The machine behind the reading of the variable. -/
def unreadMachine : Machine Unit :=
  final (readList (evaluate 1) (Text.ofString "\x7b a")) bracedMachine

/-- Appending to a text that is no list stores what was read of it and the element behind. -/
theorem failed_list_is_used_append :
    ∃ reply written after,
      callBuiltin (evaluate 1) 1 .append [[0x78], [0x62]] bracedMachine = .ok reply after ∧
        (Effect.assign .visible [0x78] (Text.ofString "\x7b a\x7d b")).make unreadMachine =
          .ok () written ∧
        written.Agrees after ∧
        ((after.interpreter.frame rootFrame).bindings.get? [0x78]).map Variable.value =
          some (Text.ofString "\x7b a\x7d b") := by
  have reads : ReadsList (evaluate 1) .append [[0x78], [0x62]] bracedMachine
      (Text.ofString "\x7b a") bracedMachine fun items _ =>
        [.assign .visible [0x78] (ListText.write (items ++ [[0x62]]))] :=
    .append (.visible (by decide) _ _) rfl
  have read : readList (evaluate 1) (Text.ofString "\x7b a") bracedMachine =
      .ok [Text.ofString " a"] unreadMachine := rfl
  have stopped : unreadMachine.Failed :=
    ⟨by decide +kernel, by decide +kernel, by decide +kernel, by decide +kernel⟩
  have written : ListText.write ([Text.ofString " a"] ++ [[0x62]]) =
      Text.ofString "\x7b a\x7d b" := by decide
  obtain ⟨reply, made, after, called, makes, agrees, used⟩ :=
    failed_list_is_used 0 1 reads read stopped (by simp)
  obtain ⟨-, holds⟩ := used rfl rfl .visible [0x78] _ rfl
  rw [written] at makes holds
  obtain ⟨_, _, made, ends⟩ := bind_eq_ok makes
  cases ends
  exact ⟨reply, _, after, called, made, agrees, holds (by decide) rfl⟩

/-- A script that appends to a variable whose text is no list. -/
def failedAppend : Text :=
  Text.ofString "set x \"\x7b a\"; try \x7bappend x b\x7d; set x"

/-- A variable whose text could not be read as a list is overwritten all the same. -/
theorem failed_append_overwrites :
    unfailed? (evaluate 4 failedAppend true) (Machine.start () {} {}) =
      some (Text.ofString "\x7b a\x7d b") := by
  decide +kernel

end Eval

end LittleScript
