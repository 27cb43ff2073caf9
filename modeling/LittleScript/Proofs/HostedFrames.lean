import LittleScript.Proofs.FrameTree
import LittleScript.Proofs.HostedRuns
import Mathlib.Logic.Relation

namespace LittleScript

/-!
# Frames under a host

A host may make and leave frames as it likes, also in the middle of a script, where its commands do
so between two commands of the script.  However it does that, with assignments and code in between,
the frames stay a tree below the root frame, which is never left: wherever evaluation is, its
parents lead to the root, and on the way what is running is found.
-/

variable {σ α : Type}

namespace Interpreter

/-! ## Trees of frames -/

/-- `interpreter.IsParent id parent`: a frame has the other one as its parent. -/
def IsParent (interpreter : Interpreter σ) (id parent : FrameId) : Prop :=
  (interpreter.frame id).parent = some parent

/--
The frames of an interpreter form a tree below the root frame, also those that have been left; each
variable goes by the name under which its frame has it and is owned by that frame, and what is
running is found from where evaluation is.
-/
structure FramesFormTree (interpreter : Interpreter σ) : Prop where
  root : rootFrame < interpreter.frames.size
  onlyRoot : ∀ id < interpreter.frames.size,
    (interpreter.frame id).parent = none ↔ id = rootFrame
  older : ∀ id parent, interpreter.IsParent id parent → parent < id
  leads : ∀ id < interpreter.frames.size,
    Relation.ReflTransGen interpreter.IsParent id rootFrame
  current : interpreter.current < interpreter.frames.size
  down : ∀ id, interpreter.down = some id → id < interpreter.frames.size
  ordered : ∀ id, (interpreter.frame id).bindings.Ordered
  owned : ∀ id name entry, (name, entry) ∈ (interpreter.frame id).bindings.entries →
    entry.name = name ∧ entry.owner = id ∧ interpreter.lookup? id name = some (id, entry)
  held : ∀ id name owner entry, interpreter.lookup? id name = some (owner, entry) →
    entry.name = name ∧ entry.owner = owner ∧ (owner = id ∨ owner = rootFrame) ∧
      (name, entry) ∈ (interpreter.frame owner).bindings.entries
  running : Relation.ReflTransGen interpreter.IsParent interpreter.current
    interpreter.callerFrame
  runs : interpreter.callerFrame = rootFrame ∨
    (interpreter.frame interpreter.callerFrame).catching.isSome ∨
      (interpreter.frame interpreter.callerFrame).function.isSome

/--
The frames of an interpreter are a tree, evaluation is in it, and variables are in order and know
their names and their frames.
-/
structure InTree (interpreter : Interpreter σ) : Prop extends interpreter.WellFramed where
  ordered : ∀ id, (interpreter.frame id).bindings.Ordered
  owned : ∀ id, (interpreter.frame id).bindings.OwnedBy id

namespace InTree

variable {interpreter : Interpreter σ}

/-- A new interpreter has no variables. -/
theorem bindings_of_new
    (isNew : interpreter.frames = #[{}])
    {id : FrameId} :
    (interpreter.frame id).bindings = .empty := by
  cases id <;> simp [frame, isNew] <;> rfl

/-- The one frame of a new interpreter. -/
theorem of_new
    (isNew : interpreter.frames = #[{}])
    (atRoot : interpreter.current = rootFrame)
    (notUp : interpreter.down = none) :
    interpreter.InTree where
  toWellFramed := .of_new isNew atRoot notUp
  ordered id := by
    rw [bindings_of_new isNew]
    exact Table.ordered_empty
  owned id := by
    rw [bindings_of_new isNew]
    exact .empty id

/-- Only the frames matter, and where evaluation is. -/
theorem of_frames
    (tree : interpreter.InTree)
    {after : Interpreter σ}
    (frames : after.frames = interpreter.frames)
    (current : after.current = interpreter.current)
    (down : after.down = interpreter.down) :
    after.InTree where
  toWellFramed := tree.of_sameParents (.of_frames frames) current down
  ordered id := by
    rw [frame, frames]
    exact tree.ordered id
  owned id := by
    rw [frame, frames]
    exact tree.owned id

/-- Frames have a property after a change of one of them, if that one gets it. -/
theorem forall_updateFrame
    {p : FrameId → Table Variable → Prop}
    (all : ∀ id, p id (interpreter.frame id).bindings)
    (id : FrameId)
    {change : Frame → Frame}
    (keeps : ∀ frame : Frame, p id frame.bindings → p id (change frame).bindings)
    (other : FrameId) :
    p other ((interpreter.updateFrame id change).frame other).bindings := by
  rw [frame_updateFrame]
  split
  case isTrue here =>
    obtain ⟨rfl, -⟩ := here
    exact keeps _ (all id)
  case isFalse => exact all other

theorem putVariable
    (tree : interpreter.InTree)
    (id : FrameId)
    {name : Text}
    {entry : Variable}
    (isName : entry.name = name)
    (isOwner : entry.owner = id) :
    (interpreter.putVariable id name entry).InTree where
  toWellFramed := tree.of_sameParents (.putVariable interpreter id name entry) rfl rfl
  ordered := forall_updateFrame (p := fun _ => Table.Ordered) tree.ordered id
    fun _ ordered => ordered.insert name entry
  owned := forall_updateFrame (p := fun id bindings => bindings.OwnedBy id) tree.owned id
    fun _ owned => owned.insert isName isOwner

/-- The variable of a frame under a name knows both, also when it is a new one. -/
theorem entryAt
    (tree : interpreter.InTree)
    (id : FrameId)
    (name : Text) :
    (interpreter.entryAt id name).name = name ∧ (interpreter.entryAt id name).owner = id := by
  rw [Interpreter.entryAt]
  cases known : (interpreter.frame id).bindings.get? name with
  | none => exact ⟨rfl, rfl⟩
  | some entry => exact tree.owned id name entry (Table.mem_entries_of_get? known)

/-- A released frame has no variables. -/
theorem release
    (tree : interpreter.InTree)
    (id : FrameId)
    {next : FrameId}
    (inside : next < interpreter.frames.size) :
    ({ interpreter.updateFrame id Frame.release with current := next } : Interpreter σ).InTree where
  toWellFramed := tree.toWellFramed.release id inside
  ordered := forall_updateFrame (p := fun _ => Table.Ordered) tree.ordered id
    fun _ _ => Table.ordered_empty
  owned := forall_updateFrame (p := fun id bindings => bindings.OwnedBy id) tree.owned id
    fun _ _ => .empty id

/-- A new frame below one that is there is the new place of evaluation. -/
theorem addFrame
    (tree : interpreter.InTree)
    {added : Frame}
    {parent : FrameId}
    (isParent : added.parent = some parent)
    (inside : parent < interpreter.frames.size)
    (ordered : added.bindings.Ordered)
    (owned : added.bindings.OwnedBy interpreter.frames.size) :
    ({ (interpreter.addFrame added).2 with
      current := interpreter.frames.size } : Interpreter σ).InTree where
  toWellFramed := tree.toWellFramed.addFrame isParent inside
  ordered id := by
    have frameOf := interpreter.frame_addFrame id added
    split at frameOf
    · exact (congrArg Frame.bindings frameOf) ▸ ordered
    · exact (congrArg Frame.bindings frameOf) ▸ tree.ordered id
  owned id := by
    have frameOf := interpreter.frame_addFrame id added
    split at frameOf
    case isTrue isNew =>
      subst isNew
      exact (congrArg Frame.bindings frameOf) ▸ owned
    case isFalse => exact (congrArg Frame.bindings frameOf) ▸ tree.owned id

/-- Parents lead from every frame to the root. -/
theorem leads
    (tree : interpreter.InTree)
    {id : FrameId}
    (inside : id < interpreter.frames.size) :
    Relation.ReflTransGen interpreter.IsParent id rootFrame := by
  induction id using Nat.strongRecOn with
  | _ id inductionHypothesis =>
      by_cases isRoot : id = rootFrame
      · rw [isRoot]
      · obtain ⟨parent, isParent⟩ := Option.isSome_iff_exists.mp (tree.parented inside isRoot)
        have older := tree.older isParent
        exact .head isParent (inductionHypothesis parent older (Nat.lt_trans older inside))

/-- On the way to the root the frame of what is running is found. -/
theorem callerFrom
    (tree : interpreter.InTree)
    (bound : Nat) :
    ∀ id, id < bound → id < interpreter.frames.size →
      Relation.ReflTransGen interpreter.IsParent id (interpreter.callerFrom bound id) ∧
        (interpreter.callerFrom bound id = rootFrame ∨
          (interpreter.frame (interpreter.callerFrom bound id)).catching.isSome ∨
            (interpreter.frame (interpreter.callerFrom bound id)).function.isSome) := by
  induction bound with
  | zero =>
      intro id below
      exact absurd below (Nat.not_lt_zero id)
  | succ bound inductionHypothesis =>
      intro id below inside
      rw [Interpreter.callerFrom]
      split
      case isTrue isCaller =>
        exact ⟨.refl, by simpa [or_assoc] using isCaller⟩
      case isFalse goesOn =>
        have notRoot : id ≠ rootFrame := by
          simp only [Bool.or_eq_true, beq_iff_eq, not_or] at goesOn
          exact goesOn.1.1
        obtain ⟨parent, isParent⟩ := Option.isSome_iff_exists.mp (tree.parented inside notRoot)
        have older := tree.older isParent
        obtain ⟨reached, runs⟩ := inductionHypothesis parent
          (Nat.lt_of_lt_of_le older (Nat.le_of_lt_succ below)) (Nat.lt_trans older inside)
        rw [isParent, Option.getD_some]
        exact ⟨.head isParent reached, runs⟩

/-- What holds of every such tree as a host sees it. -/
theorem framesFormTree
    (tree : interpreter.InTree) :
    interpreter.FramesFormTree := by
  have caller := tree.callerFrom interpreter.frames.size interpreter.current tree.current
    tree.current
  constructor
  case root => exact tree.rooted
  case onlyRoot =>
    intro id inside
    constructor
    · intro noParent
      refine Classical.byContradiction fun notRoot => ?_
      have isSome := tree.parented inside notRoot
      rw [noParent] at isSome
      cases isSome
    · intro isRoot
      subst isRoot
      cases isParent : (interpreter.frame rootFrame).parent with
      | none => rfl
      | some parent => exact absurd (tree.older isParent) (Nat.not_lt_zero parent)
  case older => exact fun _ _ => tree.older
  case leads => exact fun _ => tree.leads
  case current => exact tree.current
  case down => exact fun _ => tree.down
  case ordered => exact tree.ordered
  case owned =>
    intro id name entry member
    obtain ⟨isName, isOwner⟩ := tree.owned id name entry member
    refine ⟨isName, isOwner, ?_⟩
    rw [lookup?, (tree.ordered id).get?_eq_some_iff.mpr member]
  case held =>
    intro id name owner entry found
    rw [lookup?] at found
    split at found
    case h_1 isOwn =>
      cases found
      have member := (tree.ordered id).get?_eq_some_iff.mp isOwn
      obtain ⟨isName, isOwner⟩ := tree.owned id name entry member
      exact ⟨isName, isOwner, .inl rfl, member⟩
    case h_2 =>
      obtain ⟨known, isGlobal, isFound⟩ := Option.map_eq_some_iff.mp found
      cases isFound
      have member := (tree.ordered rootFrame).get?_eq_some_iff.mp isGlobal
      obtain ⟨isName, isOwner⟩ := tree.owned rootFrame name entry member
      exact ⟨isName, isOwner, .inr rfl, member⟩
  case running => exact caller.1
  case runs => exact caller.2

end InTree

theorem FramesFormTree.inTree
    {interpreter : Interpreter σ}
    (tree : interpreter.FramesFormTree) :
    interpreter.InTree where
  rooted := tree.root
  older := tree.older _ _
  parented {id} inside notRoot := by
    rw [Option.isSome_iff_ne_none]
    exact fun noParent => notRoot ((tree.onlyRoot id inside).mp noParent)
  current := tree.current
  down := tree.down _
  ordered := tree.ordered
  owned id name entry member :=
    have owns := tree.owned id name entry member
    ⟨owns.1, owns.2.1⟩

end Interpreter

namespace Eval

/-! ## Moves -/

/-- Storing a value puts at most one variable into the frame. -/
theorem frames_store
    (frame : FrameId)
    (name value : Text)
    (machine : Machine σ) :
    (final (store frame name value) machine).interpreter = machine.interpreter ∨
      ∃ stored, (final (store frame name value) machine).interpreter =
        machine.interpreter.putVariable frame name
          { machine.interpreter.entryAt frame name with value := stored } := by
  obtain ⟨answer, world, approved, -⟩ := approve_apply frame name value machine
  rw [final, store, bind_of_ok approved]
  cases answer with
  | none => exact .inl rfl
  | some stored => exact .inr ⟨stored, rfl⟩

/-- A watch is put on a variable that is there, or on a new one. -/
theorem watch_inTree
    {machine : Machine σ}
    (tree : machine.interpreter.InTree)
    (name code : Text) :
    (final (watch name code) machine).interpreter.InTree := by
  cases known : machine.interpreter.visible? name with
  | none =>
      simp only [final, Eval.watch, change, known]
      exact tree.putVariable _ rfl rfl
  | some found =>
      obtain ⟨frame, entry⟩ := found
      obtain ⟨isName, isOwner, -⟩ :=
        tree.framesFormTree.held machine.interpreter.current name frame entry known
      simp only [final, Eval.watch, change, known]
      exact tree.putVariable frame isName isOwner

/-- A move leaves the frames a tree whose variables are in order and know their names and frames. -/
theorem Move.inTree
    {realm : Realm σ}
    {before after : Machine σ}
    (move : Move realm before after)
    (tree : before.interpreter.InTree) :
    after.interpreter.InTree := by
  have framed := move.wellFramed tree.toWellFramed
  cases move with
  | aside same =>
      exact ⟨framed, fun id => (same.frame id).bindings ▸ tree.ordered id,
        fun id => (same.frame id).bindings ▸ tree.owned id⟩
  | rename moved =>
      obtain ⟨functions, commands, rfl⟩ := Interpreter.rename_eq moved
      exact ⟨framed, tree.ordered, tree.owned⟩
  | store frame name value _ =>
      obtain ⟨isName, isOwner⟩ := tree.entryAt frame name
      rcases frames_store frame name value before with same | ⟨stored, isStored⟩
      · rw [same]
        exact tree
      · rw [isStored]
        exact tree.putVariable frame isName isOwner
  | declare name _ _ =>
      exact tree.putVariable _ rfl rfl
  | watch name code _ =>
      exact watch_inTree tree name code
  | @push callee bindings ordered owned =>
      obtain ⟨parent, isParent, place⟩ := callee.parent_frame before.interpreter.current
      let entered : Frame := { callee.frame before.interpreter.current with bindings }
      have isParent : entered.parent = some parent := isParent
      have inside : parent < before.interpreter.frames.size := by
        rcases place with rfl | rfl
        · exact tree.rooted
        · exact tree.current
      exact tree.addFrame isParent inside ordered owned
  | _ =>
      exact ⟨framed, tree.ordered, tree.owned⟩

/-- The realm of the interpreters whose frames are a tree, whatever commands they offer. -/
def Realm.tree : Realm σ where
  holds := Interpreter.InTree
  reach _ := true
  allowed _ := True
  drops := True
  root := rfl
  current _ := rfl
  up _ _ _ _ _ := rfl
  down _ _ _ _ _ := rfl

/-- From one machine to another no frame goes away, and a tree of frames stays one. -/
def Growing (before after : Machine σ) : Prop :=
  before.interpreter.frames.size ≤ after.interpreter.frames.size ∧
    (before.interpreter.InTree → after.interpreter.InTree)

theorem Growing.of_frames
    {before after : Machine σ}
    (frames : after.interpreter.frames = before.interpreter.frames)
    (current : after.interpreter.current = before.interpreter.current)
    (down : after.interpreter.down = before.interpreter.down) :
    Growing before after :=
  ⟨Nat.le_of_eq (congrArg Array.size frames).symm, fun tree => tree.of_frames frames current down⟩

theorem Growing.trans
    {first second third : Machine σ}
    (early : Growing first second)
    (late : Growing second third) :
    Growing first third :=
  ⟨Nat.le_trans early.1 late.1, late.2 ∘ early.2⟩

theorem leading_growing :
    Leading (Realm.tree (σ := σ)) Growing fun _ _ => True where
  refl _ := ⟨Nat.le_refl _, id⟩
  trans := Growing.trans
  holds related := related.2
  move _ move := ⟨move.size_le, move.inTree⟩
  back held related isBelow :=
    ⟨Nat.le_refl _, fun treeAfter =>
      ⟨held.comeBack related.1 treeAfter.toWellFramed isBelow, treeAfter.ordered,
        treeAfter.owned⟩⟩
  pop {before after frame} held related := by
    have sized := (Interpreter.SameParents.release after.interpreter
      before.interpreter.frames.size).size
    have grown := Nat.le_trans (Nat.le_succ _) (size_pushed frame before ▸ related.1)
    exact ⟨Nat.le_of_eq sized.symm, fun treeAfter =>
      treeAfter.release _ (Nat.lt_of_lt_of_le held.current grown)⟩
  goesOnward _ := True.intro
  onwardTrans _ _ := True.intro

/-- The frames of a jail are a tree. -/
theorem inTree_jailMachine
    (clean : Bool)
    (machine : Machine σ) :
    (jailMachine clean machine).interpreter.InTree := by
  obtain ⟨functions, commands, system, isJail⟩ := machine.interpreter.jail_eq clean
  rw [jailMachine, isJail]
  exact .of_new rfl rfl rfl

/-! ## Frames that a host makes and leaves -/

theorem growing_pushFrame
    (machine : Machine σ) :
    Growing machine (final pushFrame machine) :=
  ⟨(size_pushed _ machine).symm ▸ Nat.le_succ _,
    fun tree => tree.addFrame rfl tree.current Table.ordered_empty (.empty _)⟩

theorem growing_popFrame
    (machine : Machine σ) :
    Growing machine (final popFrame machine) := by
  rw [final, popFrame_apply]
  cases isParent : machine.interpreter.currentFrame.parent with
  | none => exact leading_growing.refl machine
  | some parent =>
      have sized := (Interpreter.SameParents.release machine.interpreter
        machine.interpreter.current).size
      refine ⟨Nat.le_of_eq sized.symm, fun tree => ?_⟩
      exact tree.release _ (Nat.lt_trans (tree.older isParent) tree.current)

/-- The root frame is never left or released by leaving frames. -/
theorem popFrame_keeps_root
    {machine : Machine σ}
    (tree : machine.interpreter.FramesFormTree) :
    (final popFrame machine).interpreter.frame rootFrame = machine.interpreter.frame rootFrame ∧
      (machine.interpreter.current = rootFrame → popFrame machine = .ok () machine) := by
  have isRoot := tree.onlyRoot _ tree.current
  rw [final, popFrame_apply]
  cases isParent : machine.interpreter.currentFrame.parent with
  | none => exact ⟨rfl, fun _ => rfl⟩
  | some parent =>
      have notRoot : machine.interpreter.current ≠ rootFrame := by
        intro atRoot
        have noParent := isRoot.mpr atRoot
        rw [Interpreter.currentFrame, noParent] at isParent
        cases isParent
      refine ⟨?_, fun atRoot => absurd atRoot notRoot⟩
      have updated := machine.interpreter.frame_updateFrame machine.interpreter.current rootFrame
        Frame.release
      rw [if_neg fun both => notRoot both.1] at updated
      exact updated

/-! ## Whatever a host does -/

/-- Whatever host commands and scripts do, no frame goes away, and a tree of frames stays one. -/
theorem leadsHosts_growing :
    LeadsHosts (Realm.tree (σ := σ)) Growing where
  toLeading := leading_growing
  allowed _ := True.intro
  drops := True.intro
  holdsInJail clean _ _ := inTree_jailMachine clean _
  surrounded _ same := .of_frames (by rw [same]) (by rw [same]) (by rw [same])
  declared _ _ _ :=
    ⟨Nat.le_of_eq (Interpreter.SameParents.putVariable ..).size.symm,
      fun tree => tree.putVariable _ rfl rfl⟩
  pushFrame := growing_pushFrame
  popFrame := growing_popFrame

/-- A dispatcher that calls commands as scripts do wherever the frames form a tree. -/
def AgreesOnTrees (dispatcher : Dispatcher σ) : Prop :=
  ∀ run rounds command (machine : Machine σ), machine.interpreter.FramesFormTree →
    dispatcher run rounds command machine = dispatch run rounds command machine

/--
Whatever is done on a machine leaves its frames a tree, and commands are only called where they are
one; leaving frames never touches the root frame.
-/
structure StaysTree (machine : Machine σ) : Prop where
  evaluated : ∀ fuel context code,
    (machine.perform (evaluateIn (evaluate fuel) context code)).2.interpreter.FramesFormTree
  performed : ∀ fuel action,
    (machine.perform (perform (evaluate fuel) action)).2.interpreter.FramesFormTree
  called : ∀ dispatcher, AgreesOnTrees dispatcher → ∀ fuel context code,
    machine.perform (evaluateIn (evaluateVia dispatcher fuel) context code) =
      machine.perform (evaluateIn (evaluate fuel) context code)
  calledByHost : ∀ dispatcher, AgreesOnTrees dispatcher → ∀ fuel action,
    machine.perform (perform (evaluateVia dispatcher fuel) action) =
      machine.perform (perform (evaluate fuel) action)
  rootKept : (machine.perform popFrame).2.interpreter.frame rootFrame =
    machine.interpreter.frame rootFrame
  rootNotLeft : machine.interpreter.current = rootFrame →
    machine.perform popFrame = (.finished (), machine)

theorem AgreesOnTrees.agreesWhere
    {dispatcher : Dispatcher σ}
    (agrees : AgreesOnTrees dispatcher) :
    AgreesWhere Interpreter.InTree dispatcher :=
  fun run rounds command machine tree => agrees run rounds command machine tree.framesFormTree

theorem StaysTree.of_inTree
    {machine : Machine σ}
    (tree : machine.interpreter.InTree) :
    StaysTree machine where
  evaluated fuel context code :=
    ((leadsHosts_growing.evaluated tree fuel context code).2 tree).framesFormTree
  performed fuel action :=
    ((leadsHosts_growing.performed tree fuel action).2 tree).framesFormTree
  called _ agrees := leadsHosts_growing.called tree agrees.agreesWhere
  calledByHost _ agrees := leadsHosts_growing.calledByHost tree agrees.agreesWhere
  rootKept := by
    rw [perform_snd]
    exact (popFrame_keeps_root tree.framesFormTree).1
  rootNotLeft atRoot := by
    rw [Machine.perform, (popFrame_keeps_root tree.framesFormTree).2 atRoot]

end Eval

/--
A machine that a host gets to: it configures an interpreter, changes it in whatever leaves the
frames alone, such as its commands and callbacks, and changes the world; it evaluates code in a
context, and does what a host command may do, such as making and leaving frames, assigning variables
and running code up and down the frames.
-/
inductive Machine.Hosted : Machine σ → Prop where
  | configured {configuration : Configuration} {callbacks : Callbacks σ}
      {interpreter : Interpreter σ} (world : World σ) :
      configuration.interpreter callbacks = .ok interpreter →
      Hosted ⟨interpreter, world⟩
  | equipped {machine : Machine σ} {interpreter : Interpreter σ} (world : World σ) :
      Hosted machine →
      interpreter.frames = machine.interpreter.frames →
      interpreter.current = machine.interpreter.current →
      interpreter.down = machine.interpreter.down →
      Hosted ⟨interpreter, world⟩
  | evaluated {machine : Machine σ} (fuel : Nat) (context : Context) (code : Text) :
      Hosted machine →
      Hosted (machine.perform (Eval.evaluateIn (Eval.evaluate fuel) context code)).2
  | performed {machine : Machine σ} (fuel : Nat) (action : HostAction σ) :
      Hosted machine →
      Hosted (machine.perform (Eval.perform (Eval.evaluate fuel) action)).2

/-- The frames of a machine that a host gets to are a tree. -/
theorem Machine.Hosted.inTree
    {machine : Machine σ}
    (hosted : machine.Hosted) :
    machine.interpreter.InTree := by
  induction hosted with
  | @configured _ callbacks _ world configured =>
      obtain ⟨limits, dollar, rfl⟩ := Configuration.interpreter_eq configured
      obtain ⟨functions, commands, system, isFresh⟩ := Interpreter.fresh_eq limits callbacks
      rw [isFresh]
      exact .of_new rfl rfl rfl
  | equipped world _ frames current down inductionHypothesis =>
      exact inductionHypothesis.of_frames frames current down
  | evaluated fuel context code _ inductionHypothesis =>
      exact ((Eval.StaysTree.of_inTree inductionHypothesis).evaluated fuel context code).inTree
  | performed fuel action _ inductionHypothesis =>
      exact ((Eval.StaysTree.of_inTree inductionHypothesis).performed fuel action).inTree

/-- A host may register commands. -/
theorem Machine.Hosted.define
    {machine : Machine σ}
    (hosted : machine.Hosted)
    (name : Text)
    (definition : Definition σ) :
    Hosted { machine with interpreter := machine.interpreter.define name definition } :=
  .equipped _ hosted rfl rfl rfl

namespace Eval

/--
Whatever a host and its scripts do, the frames form a tree; so they do wherever a command is called,
and, from any such tree on, after each thing that the command does.
-/
theorem frames_form_tree :
    (∀ machine : Machine σ, machine.Hosted → machine.interpreter.FramesFormTree) ∧
      ∀ machine : Machine σ, machine.interpreter.FramesFormTree → StaysTree machine :=
  ⟨fun _ hosted => hosted.inTree.framesFormTree, fun _ tree => .of_inTree tree.inTree⟩

/-! ## A host command that leaves too many frames -/

/-- Make a frame with a variable in it, leave it, and then leave more frames than there are. -/
def leaveTooMany : HostAction Unit :=
  .pushFrame <| .setVariable (Text.ofString "own") (Text.ofString "1") .own fun _ =>
    .popFrame <| .popFrame <| .popFrame <| .popFrame <| .reply (.value [])

/-- A machine whose scripts can leave too many frames, and make one. -/
def overleaving : Machine Unit where
  interpreter :=
    ((Interpreter.fresh {} {}).define (Text.ofString "leave") (.host fun _ => leaveTooMany)).define
      (Text.ofString "enter") (.host fun _ => .pushFrame (.reply (.value [])))
  world := { host := () }

/-- A function, called in a new frame, leaves its own frame and asks what is running. -/
def overleave : Text :=
  Text.ofString "func f \x7b\x7d \x7bleave;set g [reflect this]\x7d;enter;f"

/-- A dispatcher that crashes unless evaluation is in a frame that is there. -/
def withinFrames : Dispatcher σ :=
  fun run rounds command machine =>
    if machine.interpreter.current < machine.interpreter.frames.size then
      dispatch run rounds command machine
    else .error .crash machine

theorem overleaving_hosted :
    overleaving.Hosted := by
  have configured : ({} : Configuration).interpreter ({} : Callbacks Unit) =
      .ok (.fresh {} {}) := rfl
  exact ((Machine.Hosted.configured { host := () } configured).define _ _).define _ _

theorem withinFrames_agrees :
    AgreesOnTrees (withinFrames (σ := σ)) :=
  fun _ _ _ _ tree => if_pos tree.current

/-- The machine behind the script. -/
def overleft : Machine Unit :=
  (overleaving.perform (evaluateIn (evaluate 6) .background overleave)).2

/-- Behind the script evaluation is in the frame it made; the function has asked in the root frame. -/
theorem frames_form_tree_overleaving :
    overleaving.Hosted ∧ AgreesOnTrees (withinFrames (σ := Unit)) ∧
      overleft.interpreter.FramesFormTree ∧
      (overleaving.perform (evaluateIn (evaluateVia withinFrames 6) .background overleave)).2 =
        overleft ∧
      overleft.interpreter.current = 1 ∧
      (overleft.interpreter.lookup? 1 (Text.ofString "g")).map
          (fun found => (found.1, found.2.value)) = some (rootFrame, overleave) := by
  have tree := frames_form_tree.1 overleaving overleaving_hosted
  have stays := frames_form_tree.2 overleaving tree
  refine ⟨overleaving_hosted, withinFrames_agrees, ?tree, ?same, by decide +kernel,
    by decide +kernel⟩
  case tree =>
    rw [overleft]
    exact stays.evaluated 6 .background overleave
  case same =>
    rw [overleft, stays.called withinFrames withinFrames_agrees]

end Eval

end LittleScript
