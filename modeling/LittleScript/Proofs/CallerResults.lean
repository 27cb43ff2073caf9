import LittleScript.Proofs.Endurance
import LittleScript.Proofs.Itineraries
import LittleScript.Proofs.WatchedResults

namespace LittleScript

/-!
# Results of callers

Without the commands that go to other frames, a called function gets at a frame of its callers only
through the watch of a global variable, which runs in the root frame and leaves nothing pending
there.  So a call leaves pending in the frame of its caller what was, except that it may take what
is pending in the root frame.  Whether a call used such a command shows in how it ends where each of
them only quotes its arguments.
-/

open Eval (Heading)

variable {σ α β : Type}

/-- A built-in command that does not run code in another frame. -/
def Builtin.StaysInFrame (command : Builtin) : Prop :=
  ∀ heading : Heading, command ≠ heading.command

/-! ## Commands that only quote their arguments -/

/-- A definition that only quotes its arguments if it is a host's or goes to another frame. -/
def Definition.grounded : Definition σ → Definition σ
  | .host _ => .builtin .quote
  | .builtin .upEvaluate => .builtin .quote
  | .builtin .downEvaluate => .builtin .quote
  | .builtin .topEvaluate => .builtin .quote
  | other => other

/-- A grounded definition does not go to another frame. -/
theorem Definition.grounded_among
    (definition : Definition σ) :
    definition.grounded.Among Builtin.StaysInFrame := by
  cases definition with
  | host command =>
      intro heading
      cases heading <;> simp [Heading.command]
  | script parameters body =>
      exact True.intro
  | builtin command =>
      cases command <;> intro heading <;> cases heading <;> simp [Heading.command]

/-- A function whose definition only quotes its arguments if it goes to another frame. -/
def Function.grounded (function : Function σ) : Function σ :=
  { function with definition := function.definition.grounded }

/-- An interpreter on which no command goes to another frame, nor is a host's. -/
def Interpreter.grounded (interpreter : Interpreter σ) : Interpreter σ :=
  { interpreter with functions := interpreter.functions.map Function.grounded }

/-- A machine on which no command goes to another frame, nor is a host's. -/
def Machine.grounded (machine : Machine σ) : Machine σ :=
  { machine with interpreter := machine.interpreter.grounded }

/-- How an action ended, on a machine on which no command goes to another frame. -/
def groundedEnd : EStateM.Result Stop (Machine σ) α → EStateM.Result Stop (Machine σ) α
  | .ok value after => .ok value after.grounded
  | .error stop after => .error stop after.grounded

/--
An action uses no command that goes to another frame and none of the host's: it ends in the same way
where all these only quote their arguments.
-/
def Eval.KeepsToFrame (action : Eval σ α) (machine : Machine σ) : Prop :=
  action machine.grounded = groundedEnd (action machine)

namespace Interpreter

/-- The functions of a grounded interpreter are grounded. -/
theorem function?_grounded
    (interpreter : Interpreter σ)
    (id : FunctionId) :
    interpreter.grounded.function? id = (interpreter.function? id).map Function.grounded := by
  simp [function?, grounded]

/-- So are its commands. -/
theorem grounded_offers
    (interpreter : Interpreter σ) :
    interpreter.grounded.OffersOnly (Definition.Among Builtin.StaysInFrame) := by
  intro entry _ function found
  rw [function?_grounded] at found
  obtain ⟨original, _, rfl⟩ := Option.map_eq_some_iff.mp found
  exact original.definition.grounded_among

/-- A script function is left as it is. -/
theorem command?_grounded
    {interpreter : Interpreter σ}
    {name title : Text}
    {parameters : List Text}
    {body : Text}
    (means : interpreter.command? name = some ⟨title, .script parameters body⟩) :
    interpreter.grounded.command? name = some ⟨title, .script parameters body⟩ := by
  obtain ⟨id, named, found⟩ := Option.bind_eq_some_iff.mp means
  refine Option.bind_eq_some_iff.mpr ⟨id, named, ?_⟩
  rw [function?_grounded, found]
  rfl

/-- Where commands stay in their frame they stay within a call. -/
theorem OffersOnly.staysWithin
    {interpreter : Interpreter σ}
    (offers : interpreter.OffersOnly (Definition.Among Builtin.StaysInFrame)) :
    interpreter.OffersOnly Definition.StaysWithin := by
  refine offers.mono fun definition among => ?_
  cases definition with
  | host command => exact among
  | builtin command => exact ⟨among .up, among .down⟩
  | script parameters body => exact True.intro

end Interpreter

/-! ## Below the root frame -/

/-- Evaluation is in a frame other than the root, and no command goes to another frame. -/
structure Interpreter.BelowRoot (limits : Limits) (interpreter : Interpreter σ) : Prop where
  within : interpreter.Within Builtin.StaysInFrame limits
  below : interpreter.current ≠ rootFrame
  rooted : rootFrame < interpreter.frames.size

/-- What is pending in the root frame is what was, or nothing. -/
def Interpreter.SparesRoot (before after : Interpreter σ) : Prop :=
  (after.frame rootFrame).pending = (before.frame rootFrame).pending ∨ after.ClearAt rootFrame

namespace Interpreter

/-- What is spared twice is spared. -/
theorem SparesRoot.trans
    {first second third : Interpreter σ}
    (before : first.SparesRoot second)
    (behind : second.SparesRoot third) :
    first.SparesRoot third := by
  rcases behind with same | cleared
  · rcases before with sameBefore | clearedBefore
    · exact .inl (same.trans sameBefore)
    · exact .inr (clearAt_iff.mpr (same.trans (clearAt_iff.mp clearedBefore)))
  · exact .inr cleared

/-- Evaluation is still below the root frame where its commands and its frame are the same. -/
theorem BelowRoot.of_same
    {limits : Limits}
    {before after : Interpreter σ}
    (below : before.BelowRoot limits)
    (sameLimits : after.limits = before.limits)
    (sameFunctions : after.functions = before.functions)
    (sameCommands : after.commands = before.commands)
    (sameCurrent : after.current = before.current)
    (grown : before.frames.size ≤ after.frames.size) :
    after.BelowRoot limits where
  within := by
    refine ⟨fun entry member function found => ?_, sameLimits.trans below.within.limits⟩
    rw [sameCommands] at member
    rw [Interpreter.function?, sameFunctions] at found
    exact below.within.offers entry member function found
  below := sameCurrent ▸ below.below
  rooted := Nat.lt_of_lt_of_le below.rooted grown

/-- A change of a frame does not lead to the root frame. -/
theorem BelowRoot.updateFrame
    {limits : Limits}
    {interpreter : Interpreter σ}
    (below : interpreter.BelowRoot limits)
    (id : FrameId)
    (change : Frame → Frame) :
    (interpreter.updateFrame id change).BelowRoot limits :=
  below.of_same rfl rfl rfl rfl (by simp [Interpreter.updateFrame])

/-- A change of another frame does not touch the root frame. -/
theorem sparesRoot_updateFrame
    (interpreter : Interpreter σ)
    {id : FrameId}
    (other : id ≠ rootFrame)
    (change : Frame → Frame) :
    interpreter.SparesRoot (interpreter.updateFrame id change) := by
  left
  rw [frame_updateFrame, if_neg fun same => other same.1]

end Interpreter

namespace Eval

/-- Below the root frame an action that yields a value spares the root frame and stays there. -/
def Spares (limits : Limits) (action : Eval σ α) : Prop :=
  ∀ (machine : Machine σ) (value : α) (after : Machine σ),
    machine.interpreter.BelowRoot limits → action machine = .ok value after →
      after.interpreter.BelowRoot limits ∧ machine.interpreter.SparesRoot after.interpreter

namespace Spares

variable {limits : Limits}

/-- An action that leaves the frames, the commands and the place of evaluation alone. -/
theorem of_aside
    {action : Eval σ α}
    (aside : ∀ {machine : Machine σ} {value : α} {after : Machine σ},
      action machine = .ok value after →
        after.interpreter.limits = machine.interpreter.limits ∧
          after.interpreter.functions = machine.interpreter.functions ∧
          after.interpreter.commands = machine.interpreter.commands ∧
          after.interpreter.current = machine.interpreter.current ∧
          after.interpreter.frames = machine.interpreter.frames) :
    Spares limits action := by
  intro machine value after below ran
  obtain ⟨sameLimits, sameFunctions, sameCommands, sameCurrent, sameFrames⟩ := aside ran
  refine ⟨below.of_same sameLimits sameFunctions sameCommands sameCurrent ?_, .inl ?_⟩
  · exact Nat.le_of_eq (congrArg Array.size sameFrames.symm)
  · rw [Interpreter.frame, sameFrames]
    rfl

/-- A value spares the root frame. -/
theorem pure
    (value : α) :
    Spares (σ := σ) limits (Pure.pure value) :=
  of_aside fun ran => by
    cases ran
    exact ⟨rfl, rfl, rfl, rfl, rfl⟩

/-- Actions that spare the root frame follow one another. -/
theorem bind
    {action : Eval σ α}
    {next : α → Eval σ β}
    (first : Spares limits action)
    (second : ∀ value, Spares limits (next value)) :
    Spares limits (action >>= next) := by
  intro machine value after below ran
  obtain ⟨between, middle, ranFirst, ranNext⟩ := bind_eq_ok ran
  obtain ⟨belowBetween, spares⟩ := first _ _ _ below ranFirst
  obtain ⟨belowAfter, sparesAfter⟩ := second between _ _ _ belowBetween ranNext
  exact ⟨belowAfter, spares.trans sparesAfter⟩

/-- A look at the error spares it. -/
theorem hasError :
    Spares (σ := σ) limits Eval.hasError :=
  of_aside fun ran => by
    cases ran
    exact ⟨rfl, rfl, rfl, rfl, rfl⟩

/-- So does dropping the error. -/
theorem clearError :
    Spares (σ := σ) limits Eval.clearError :=
  of_aside fun ran => by
    cases ran
    exact ⟨rfl, rfl, rfl, rfl, rfl⟩

/-- So does raising one. -/
theorem raiseAt
    (offset : Int)
    (reason : Reason) :
    Spares (σ := σ) limits (Eval.raiseAt offset reason) :=
  of_aside fun {machine} _ _ ran => by
    obtain ⟨error, world, raised⟩ := raiseAt_apply offset reason machine
    rw [raised] at ran
    cases ran
    exact ⟨rfl, rfl, rfl, rfl, rfl⟩

/-- A variable is put into a frame. -/
theorem putVariable
    {machine : Machine σ}
    (below : machine.interpreter.BelowRoot limits)
    (frame : FrameId)
    (name : Text)
    (entry : Variable) :
    (machine.interpreter.putVariable frame name entry).BelowRoot limits ∧
      machine.interpreter.SparesRoot (machine.interpreter.putVariable frame name entry) :=
  ⟨below.updateFrame _ _, .inl (machine.interpreter.pending_putVariable ..)⟩

/-- So does every step within no frame. -/
theorem step
    {update : Interpreter σ → Interpreter σ}
    (step : Step (fun _ => false) update) :
    Spares limits (change update) := by
  intro machine value after below ran
  cases ran
  have atCurrent : ∀ change : Frame → Frame,
      (machine.interpreter.updateCurrent change).BelowRoot limits ∧
        machine.interpreter.SparesRoot (machine.interpreter.updateCurrent change) :=
    fun change => ⟨below.updateFrame _ change,
      machine.interpreter.sparesRoot_updateFrame below.below change⟩
  cases step with
  | putVariable _ _ _ reached =>
      exact nomatch reached
  | define name parameters body =>
      exact ⟨⟨⟨below.within.offers.define name True.intro, below.within.limits⟩, below.below,
        below.rooted⟩, .inl rfl⟩
  | rename old new =>
      cases moved : machine.interpreter.rename old new with
      | error reason =>
          simp only [moved, Except.toOption, Option.getD_none]
          exact ⟨below, .inl rfl⟩
      | ok renamed =>
          simp only [moved, Except.toOption, Option.getD_some]
          have offers := below.within.offers.rename moved
          obtain ⟨functions, commands, rfl⟩ := Interpreter.rename_eq moved
          exact ⟨⟨⟨offers, below.within.limits⟩, below.below, below.rooted⟩, .inl rfl⟩
  | finish value =>
      exact atCurrent _
  | provide value =>
      exact atCurrent _
  | resume =>
      exact atCurrent _
  | take =>
      exact atCurrent _
  | _ =>
      exact ⟨below.of_same rfl rfl rfl rfl (Nat.le_refl _), .inl rfl⟩

/-- A watch changes no result. -/
theorem watch
    (name code : Text) :
    Spares (σ := σ) limits (Eval.watch name code) := by
  intro machine value after below ran
  cases ran
  dsimp only
  cases machine.interpreter.visible? name with
  | none => exact putVariable below ..
  | some found => exact putVariable below ..

/-- Nor does a new variable. -/
theorem declare
    (run : Run σ)
    (name : Text) :
    Spares limits (Eval.declare run name) := by
  intro machine value after below ran
  simp only [Eval.declare, inspect_bind_apply, setVariable] at ran
  split at ran
  · split at ran
    · cases ran
      exact ⟨below, .inl rfl⟩
    · cases ran
      exact putVariable below ..
  · cases ran
    exact ⟨below, .inl rfl⟩

/-- An action in the frame of a callee, which is not the root frame. -/
theorem inOwnFrame
    (run : Run σ)
    (callee : Callee)
    (pairs : List (Text × Text))
    {action : Eval σ α}
    (inside : Spares limits action) :
    ∀ {machine : Machine σ} {value : α} {after : Machine σ},
      machine.interpreter.Within Builtin.StaysInFrame limits →
      rootFrame < machine.interpreter.frames.size →
      Eval.inOwnFrame run callee pairs action machine = .ok value after →
        after.interpreter.Within Builtin.StaysInFrame limits ∧
          after.interpreter.current = machine.interpreter.current ∧
          rootFrame < after.interpreter.frames.size ∧
          machine.interpreter.SparesRoot after.interpreter := by
  intro machine value after within rooted ran
  obtain ⟨bindings, _, _, puts⟩ := callee.setVariables_pushed pairs
    machine.interpreter.current machine.interpreter.frames.size
  rw [Eval.inOwnFrame, inspect_bind_apply, inNewFrame_apply] at ran
  obtain ⟨ended, ranInside, rfl⟩ := ensuring_eq_ok ran
  rw [bind_of_ok (puts run machine rfl)] at ranInside
  have notRoot : machine.interpreter.frames.size ≠ rootFrame := Nat.ne_of_gt rooted
  have below : (pushed { callee.frame machine.interpreter.current with bindings }
      machine).interpreter.BelowRoot limits := by
    refine ⟨⟨within.offers, within.limits⟩, notRoot, ?_⟩
    exact Nat.lt_of_lt_of_le rooted (by simp [pushed, frameRecord, Interpreter.addFrame])
  have pushes : machine.interpreter.SparesRoot
      (pushed { callee.frame machine.interpreter.current with bindings } machine).interpreter := by
    left
    have sameRoot := machine.interpreter.frame_addFrame rootFrame
      { callee.frame machine.interpreter.current with bindings }
    rw [if_neg notRoot.symm] at sameRoot
    exact congrArg Frame.pending sameRoot
  obtain ⟨belowEnded, spares⟩ := inside _ _ _ below ranInside
  have released := ended.interpreter.sparesRoot_updateFrame notRoot Frame.release
  have belowReleased := belowEnded.updateFrame machine.interpreter.frames.size Frame.release
  exact ⟨⟨belowReleased.within.offers, belowReleased.within.limits⟩, rfl, belowReleased.rooted,
    pushes.trans (spares.trans released)⟩

/-- Nor does counting a catcher. -/
theorem inCatcher
    {action : Eval σ α}
    (inside : Spares limits action) :
    Spares limits (Eval.inCatcher action) := by
  intro machine value after below ran
  rw [Eval.inCatcher, inspect_bind_apply, change_bind_apply] at ran
  obtain ⟨ended, ranInside, rfl⟩ := ensuring_eq_ok ran
  have belowCatching : ({ machine.interpreter with
      catchers := machine.interpreter.catchers + 1 } : Interpreter σ).BelowRoot limits :=
    below.of_same rfl rfl rfl rfl (Nat.le_refl _)
  obtain ⟨belowEnded, spares⟩ := inside _ _ _ belowCatching ranInside
  exact ⟨belowEnded.of_same rfl rfl rfl rfl (Nat.le_refl _), spares⟩

/-- Code that is tried spares the root frame if all that may follow does. -/
theorem catching
    {run : Run σ}
    (runSpares : ∀ code ownResult, Spares limits (run code ownResult))
    (code : Text)
    {refused caught : Eval σ α}
    {passed : Text → Eval σ α}
    (refuses : Spares limits refused)
    (passes : ∀ value, Spares limits (passed value))
    (catches : Spares limits caught) :
    Spares limits (Eval.catching run code refused passed caught) := by
  refine .bind .hasError fun pending => ?_
  split
  · exact refuses
  · refine .bind (runSpares code false) fun value => .bind .hasError fun failed => ?_
    split
    · exact .bind .clearError fun _ => catches
    · exact passes value

/-- A jail leaves the interpreter to which it belongs alone. -/
theorem inJail
    (run : Run σ)
    (clean : Bool)
    (code : Text) :
    Spares limits (Eval.inJail run clean code) :=
  of_aside fun {machine} _ _ ran => by
    have runs : Eval.inJail run clean code machine =
        ensuring (evaluateIn run machine.interpreter.context code)
          (fun after => { after with interpreter := machine.interpreter })
          { machine with interpreter := jailInterpreter machine.interpreter clean } := rfl
    rw [runs] at ran
    obtain ⟨ended, _, rfl⟩ := ensuring_eq_ok ran
    exact ⟨rfl, rfl, rfl, rfl, rfl⟩

end Spares

/-! ## Watches of global variables -/

/-- No frame is taken away. -/
theorem growth_lasting :
    LastingScript (σ := σ)
      (fun before after => before.frames.size ≤ after.frames.size)
      (fun before after => before.frames.size ≤ after.frames.size) where
  refl _ := Nat.le_refl _
  trans _ _ _ := Nat.le_trans
  step step interpreter := by
    cases step with
    | rename old new =>
        obtain ⟨functions, commands, renamed⟩ := interpreter.rename_getD_eq old new
        simp only [renamed]
        exact Nat.le_refl _
    | putVariable frame name entry _ =>
        exact Nat.le_of_eq Array.size_modify.symm
    | finish value => exact Nat.le_of_eq Array.size_modify.symm
    | provide value => exact Nat.le_of_eq Array.size_modify.symm
    | resume => exact Nat.le_of_eq Array.size_modify.symm
    | take => exact Nat.le_of_eq Array.size_modify.symm
    | _ => exact Nat.le_refl _
  error _ _ := Nat.le_refl _
  inFrame _ _ _ _ inside := inside
  inNewFrame interpreter after frame inside := by
    have grown : interpreter.frames.size ≤ (interpreter.addFrame frame).2.frames.size := by
      simp [Interpreter.addFrame]
    exact Nat.le_trans (Nat.le_trans grown inside) (Nat.le_of_eq Array.size_modify.symm)
  runWatch _ _ _ inside := inside
  inCatcher _ _ inside := inside
  outerRefl _ := Nat.le_refl _
  within _ _ inside := inside
  enclose _ _ _ inside := inside

section Watches

variable {limits : Limits} {fuel : Nat}

/-- A watch in the root frame leaves nothing pending there. -/
theorem runWatch_spares
    (runSpares : ∀ code ownResult, Spares (σ := σ) limits (evaluate fuel code ownResult))
    (frame : FrameId)
    (code : Text)
    {machine after : Machine σ}
    (below : machine.interpreter.BelowRoot limits)
    (here : frame = rootFrame ∨ frame = machine.interpreter.current)
    (ran : runWatch (evaluate fuel) frame code machine = .ok () after) :
    after.interpreter.BelowRoot limits ∧ machine.interpreter.SparesRoot after.interpreter := by
  by_cases watched : code = []
  · subst watched
    cases ran
    exact ⟨below, .inl rfl⟩
  · have notEmpty : (!code.isEmpty) = true := by
      simpa using watched
    have free := below.within.hostFree
    have clears : frame = rootFrame → after.interpreter.ClearAt frame := fun isRoot =>
      runWatch_clears fuel watched free (isRoot ▸ below.rooted) ran
    rw [runWatch, if_pos notEmpty, inspect_bind_apply, change_bind_apply] at ran
    obtain ⟨ended, ranWatch, rfl⟩ := ensuring_eq_ok ran
    obtain ⟨value, watchEnded, ranCode, isEnded⟩ := bind_eq_ok ranWatch
    cases isEnded
    rcases here with isRoot | isCurrent
    · have standing := (evaluate_comesBack fuel machine.interpreter.depth code true
        { machine with interpreter := { machine.interpreter with current := frame } }
        ⟨⟨below.within.offers, below.within.limits⟩, rfl⟩).1
      have grown := (growth_lasting.evaluate fuel code true
        { machine with interpreter := { machine.interpreter with current := frame } } free).2
      rw [final_of_ok ranCode] at standing grown
      exact ⟨⟨⟨standing.offers, standing.limits⟩, below.below,
        Nat.lt_of_lt_of_le below.rooted grown⟩, .inr (isRoot ▸ clears isRoot)⟩
    · subst isCurrent
      obtain ⟨belowEnded, spares⟩ := runSpares code true _ _ _ below ranCode
      exact ⟨⟨⟨belowEnded.within.offers, belowEnded.within.limits⟩, below.below,
        belowEnded.rooted⟩, spares⟩

/-- An assignment spares the root frame. -/
theorem Spares.setVariable
    (runSpares : ∀ code ownResult, Spares (σ := σ) limits (evaluate fuel code ownResult))
    (name value : Text)
    {mode : Mode}
    (notFresh : mode ≠ .fresh) :
    Spares (σ := σ) limits (Eval.setVariable (evaluate fuel) name value mode) := by
  intro machine held after below ran
  cases unnamed : name.isEmpty with
  | true =>
      simp only [Eval.setVariable, unnamed, if_true] at ran
      cases ran
      exact ⟨below, .inl rfl⟩
  | false =>
      rw [setVariable_apply _ unnamed value notFresh] at ran
      obtain ⟨stored, between, ranStore, ranAfter⟩ := bind_eq_ok ran
      obtain ⟨world, -, vetoed | ⟨put, isPut⟩⟩ :=
        store_cases (owner mode name machine.interpreter) name value machine
      · rw [vetoed] at ranStore
        cases ranStore
        cases ranAfter
        exact ⟨below, .inl rfl⟩
      · rw [isPut] at ranStore
        cases ranStore
        obtain ⟨belowPut, puts⟩ := putVariable below (owner mode name machine.interpreter) name
          { machine.interpreter.entryAt (owner mode name machine.interpreter) name with
            value := put }
        cases known : Composed.assigned? mode name machine.interpreter with
        | none =>
            rw [known] at ranAfter
            cases ranAfter
            exact ⟨belowPut, puts⟩
        | some found =>
            have isOwner : owner mode name machine.interpreter = found.1 := by
              rw [owner, known]
              rfl
            rw [known] at ranAfter
            obtain ⟨_, watchedOver, ranWatch, looked⟩ := bind_eq_ok ranAfter
            cases looked
            obtain ⟨belowAfter, spares⟩ := runWatch_spares runSpares found.1 found.2.watch
              (by exact belowPut)
              (by exact isOwner ▸ owner_root_or_current mode name machine.interpreter) ranWatch
            exact ⟨belowAfter, puts.trans spares⟩

/-- Whatever is assembled from commands that stay in their frame spares the root frame. -/
theorem Assembled.spares
    (runSpares : ∀ code ownResult, Spares (σ := σ) limits (evaluate fuel code ownResult))
    {action : Run σ → Eval σ α}
    (assembled : Assembled (Scope.among Builtin.StaysInFrame limits).toRealm action) :
    Spares limits (action (evaluate fuel)) := by
  induction assembled with
  | pure value =>
      exact .pure value
  | bind _ _ first next =>
      exact .bind first next
  | consult view _ _ next =>
      exact fun _ _ _ below ran => next _ below.within _ _ _ below ran
  | step step =>
      exact .step step
  | record offset reason =>
      exact .raiseAt offset reason
  | drop _ =>
      exact .clearError
  | ask _ =>
      refine .of_aside fun ran => ?_
      cases ran
      exact ⟨rfl, rfl, rfl, rfl, rfl⟩
  | cancellation =>
      refine .of_aside fun ran => ?_
      cases cancellation_unchanged ran
      exact ⟨rfl, rfl, rfl, rfl, rfl⟩
  | halt stop _ _ =>
      exact fun _ _ _ _ ran => by cases ran
  | nested code ownResult =>
      exact runSpares code ownResult
  | assign name value notFresh =>
      exact .setVariable runSpares name value notFresh
  | declare name _ =>
      exact .declare _ name
  | watch name code _ =>
      exact .watch name code
  | heading heading code stays =>
      exact absurd rfl (stays heading)
  | inOwnFrame callee pairs _ inside =>
      intro machine value after below ran
      obtain ⟨within, sameCurrent, rooted, spares⟩ :=
        Spares.inOwnFrame _ callee pairs inside below.within below.rooted ran
      exact ⟨⟨within, sameCurrent ▸ below.below, rooted⟩, spares⟩
  | inCatcher _ inside =>
      exact .inCatcher inside
  | catching code _ _ _ _ refuses passes catches =>
      exact .catching runSpares code refuses passes catches
  | inJail clean code _ =>
      exact .inJail _ clean code

end Watches

/-- Every evaluation below the root frame spares it, where commands stay in their frame. -/
theorem evaluate_spares
    (limits : Limits)
    (fuel : Nat) :
    ∀ (code : Text) (ownResult : Bool),
      Spares (σ := σ) limits (evaluate fuel code ownResult) := by
  induction fuel with
  | zero =>
      exact fun _ _ _ _ _ _ ran => by cases ran
  | succ fuel inductionHypothesis =>
      intro code ownResult machine value after below ran
      rw [evaluate, script_apply] at ran
      obtain ⟨ended, ranBody, rfl⟩ := ensuring_eq_ok ran
      have assembled : Assembled (Scope.among (σ := σ) Builtin.StaysInFrame limits).toRealm _ :=
        .scriptBody fuel code ownResult machine.interpreter.active.isEmpty fun _ => True.intro
      have belowEntered : (entered code machine).interpreter.BelowRoot limits :=
        below.of_same rfl rfl rfl rfl (Nat.le_refl _)
      obtain ⟨belowEnded, spares⟩ := assembled.spares inductionHypothesis
        _ _ _ belowEntered ranBody
      exact ⟨belowEnded.of_same rfl rfl rfl rfl (Nat.le_refl _), spares⟩

/-! ## Calls -/

/-- A call from the root frame spares what is pending there, where commands stay in their frame. -/
theorem dispatch_spares
    (fuel rounds : Nat)
    {name : Text}
    (arguments : List Text)
    {machine after : Machine σ}
    (offers : machine.interpreter.OffersOnly (Definition.Among Builtin.StaysInFrame))
    (rooted : rootFrame < machine.interpreter.frames.size)
    {title : Text}
    {parameters : List Text}
    {body : Text}
    (means : machine.interpreter.command? name = some ⟨title, .script parameters body⟩)
    {value : Text}
    (ran : dispatch (evaluate fuel) rounds (name :: arguments) machine = .ok value after) :
    machine.interpreter.SparesRoot after.interpreter := by
  obtain ⟨id, named, found⟩ := Option.bind_eq_some_iff.mp means
  rw [dispatch_of_script _ rounds arguments named found] at ran
  let logged : Machine σ := final
    (log "call function" [("name", .text title), ("args", .number arguments.length)]) machine
  have called : inOwnFrame (evaluate fuel) (.function id) (bindings parameters arguments)
      (evaluate fuel body true) logged = .ok value after := ran
  have within : logged.interpreter.Within Builtin.StaysInFrame machine.interpreter.limits :=
    ⟨offers, rfl⟩
  exact (Spares.inOwnFrame _ _ _ (evaluate_spares _ fuel body true) within rooted called).2.2.2

/--
A call that keeps to its frame leaves pending in the frame of its caller what was, or it takes what
is pending in the root frame if that is the caller.
-/
theorem caller_pending
    (fuel rounds : Nat)
    {name : Text}
    (arguments : List Text)
    {machine after : Machine σ}
    (present : machine.interpreter.current < machine.interpreter.frames.size)
    {title : Text}
    {parameters : List Text}
    {body : Text}
    (means : machine.interpreter.command? name = some ⟨title, .script parameters body⟩)
    (keeps : KeepsToFrame (dispatch (evaluate fuel) rounds (name :: arguments)) machine)
    {value : Text}
    (ran : dispatch (evaluate fuel) rounds (name :: arguments) machine = .ok value after) :
    (after.interpreter.frame machine.interpreter.current).pending =
        machine.interpreter.currentFrame.pending ∨
      machine.interpreter.current = rootFrame ∧ after.interpreter.ClearAt rootFrame := by
  have offers : machine.grounded.interpreter.OffersOnly (Definition.Among Builtin.StaysInFrame) :=
    machine.interpreter.grounded_offers
  have meansGrounded : machine.grounded.interpreter.command? name =
      some ⟨title, .script parameters body⟩ := Interpreter.command?_grounded means
  have ranGrounded : dispatch (evaluate fuel) rounds (name :: arguments) machine.grounded =
      .ok value after.grounded := by
    rw [keeps, ran]
    rfl
  by_cases atRoot : machine.interpreter.current = rootFrame
  · have rooted : rootFrame < machine.interpreter.frames.size := atRoot ▸ present
    rcases dispatch_spares fuel rounds arguments offers rooted meansGrounded ranGrounded with
      same | cleared
    · left
      rw [Interpreter.currentFrame, atRoot]
      exact same
    · exact .inr ⟨atRoot, cleared⟩
  · left
    have confined := dispatch_confined fuel rounds arguments
      (Interpreter.OffersOnly.staysWithin offers) meansGrounded
    have hidden : calleeReach machine.grounded.interpreter.frames.size
        machine.interpreter.current = false := by
      have notNewer : ¬ machine.grounded.interpreter.frames.size ≤ machine.interpreter.current :=
        Nat.not_le.mpr present
      simp [calleeReach, atRoot, notNewer]
    have same := confined.hidden machine.interpreter.current hidden
    rw [final_of_ok ranGrounded] at same
    have sameFrame : after.interpreter.frame machine.interpreter.current =
        machine.interpreter.currentFrame := by
      simp only [Interpreter.currentFrame, Interpreter.frame, Array.getD_eq_getD_getElem?]
      exact congrArg (·.getD {}) same
    rw [sameFrame]

end Eval

end LittleScript
