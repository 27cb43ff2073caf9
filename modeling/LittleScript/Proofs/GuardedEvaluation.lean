import LittleScript.Proofs.FirstError
import LittleScript.Proofs.FrameTree
import LittleScript.Proofs.GuardedExpression
import LittleScript.Proofs.Replacement

namespace LittleScript.Guarded

/-!
# Evaluation within bounds

Evaluation with checked accesses: scripts are read by position, the commands on strings and lists
check every position, and what is running is found by following frames, each of which must be there.
On every machine that a host gets to without commands of its own it is the usual evaluation, so none
of these accesses crashes the host, and nesting too deeply is always caught.
-/

open Eval (interpreter change evaluateIn dispatchWith Builtins Scope Framing)

variable {σ : Type}

/-! ## What is running -/

/-- Walk toward the root to the first frame of a function or a catcher; frames must be there. -/
def callerFrom (interpreter : Interpreter σ) : Nat → FrameId → Option FrameId
  | 0, _ => none
  | bound + 1, id => do
      let frame ← interpreter.frames[id]?
      if id == rootFrame || frame.catching.isSome || frame.function.isSome then return id
      else callerFrom interpreter bound (← frame.parent)

/-- What is running in a frame of a catcher, in the root frame, and in a frame of a function. -/
def running {α : Type} (interpreter : Interpreter σ) (catcher : Text → α) (root : α)
    (function : FunctionId → α) : Option α := do
  let id ← callerFrom interpreter interpreter.frames.size interpreter.current
  let frame ← interpreter.frames[id]?
  match frame.catching with
  | some name => return catcher name
  | none => if id == rootFrame then return root else return function (← frame.function)

/-- The code that is running: a catcher's, the outermost text, or a function's body. -/
def runningCode (interpreter : Interpreter σ) : Option Text :=
  running interpreter (fun _ => interpreter.catcher) interpreter.source fun id =>
    ((Command.scriptOf (interpreter.function? id)).map Prod.snd).getD []

/-- The name of what is running: the command a catcher answers for, or a function. -/
def runningName (interpreter : Interpreter σ) : Option Text :=
  running interpreter id [] fun id => ((interpreter.function? id).map Function.name).getD []

/-- What an interpreter answers on a topic, which may have a subject. -/
def answer (topic : Command.Topic) (interpreter : Interpreter σ) (subject : Text) : Option Text :=
  match topic with
  | .code => runningCode interpreter
  | .name => runningName interpreter
  | topic => some (topic.answer interpreter subject)

/-- Answer a question about the interpreter. -/
def reflect (arguments : List Text) : Eval σ Reply := do
  match arguments with
  | [] => return .badArguments
  | word :: rest =>
      match Command.Topic.ofWord? word with
      | none => return .value []
      | some topic =>
          let interpreter ← interpreter
          match topic, rest with
          | .dollar, expansion :: _ =>
              change fun interpreter => { interpreter with dollar := expansion }
          | _, _ => pure ()
          return .value (← access (answer topic interpreter (rest.headD [])))

theorem getElem?_frames
    {interpreter : Interpreter σ}
    {id : FrameId}
    (inside : id < interpreter.frames.size) :
    interpreter.frames[id]? = some (interpreter.frame id) := by
  rw [Interpreter.frame, Array.getD_eq_getD_getElem?, Array.getElem?_eq_getElem inside]
  rfl

/-- The frame of what is running is found, and it is one of a function or a catcher, or the root. -/
theorem callerFrom_eq
    {interpreter : Interpreter σ}
    (framed : interpreter.WellFramed)
    (bound : Nat) :
    ∀ id, id < bound → id < interpreter.frames.size →
      ∃ caller, callerFrom interpreter bound id = some caller ∧
        interpreter.callerFrom bound id = caller ∧ caller < interpreter.frames.size ∧
        (caller == rootFrame || (interpreter.frame caller).catching.isSome ||
          (interpreter.frame caller).function.isSome) = true := by
  induction bound with
  | zero =>
      intro id below
      exact absurd below (Nat.not_lt_zero id)
  | succ bound inductionHypothesis =>
      intro id below inside
      rw [callerFrom, getElem?_frames inside, Interpreter.callerFrom]
      simp only [Option.bind_eq_bind, Option.bind_some]
      split
      case isTrue isCaller =>
        exact ⟨id, rfl, rfl, inside, isCaller⟩
      case isFalse goesOn =>
        have notRoot : id ≠ rootFrame := by
          simp only [Bool.or_eq_true, beq_iff_eq, not_or] at goesOn
          exact goesOn.1.1
        obtain ⟨parent, isParent⟩ := Option.isSome_iff_exists.mp (framed.parented inside notRoot)
        have older := framed.older isParent
        rw [isParent]
        exact inductionHypothesis parent (Nat.lt_of_lt_of_le older (Nat.le_of_lt_succ below))
          (Nat.lt_trans older inside)

/-- What is running is found without a frame or a function that is missing. -/
theorem running_eq
    {α : Type}
    {interpreter : Interpreter σ}
    (framed : interpreter.WellFramed)
    (catcher : Text → α)
    (root : α)
    (function : FunctionId → α)
    {expected : α}
    (ofCatcher : ∀ name, (interpreter.frame interpreter.callerFrame).catching = some name →
      expected = catcher name)
    (ofRoot : (interpreter.frame interpreter.callerFrame).catching = none →
      interpreter.callerFrame = rootFrame → expected = root)
    (ofFunction : ∀ id, (interpreter.frame interpreter.callerFrame).catching = none →
      interpreter.callerFrame ≠ rootFrame →
      (interpreter.frame interpreter.callerFrame).function = some id → expected = function id) :
    running interpreter catcher root function = some expected := by
  obtain ⟨caller, found, isCaller, inside, stops⟩ :=
    callerFrom_eq framed interpreter.frames.size interpreter.current framed.current framed.current
  have isCallerFrame : interpreter.callerFrame = caller := isCaller
  rw [isCallerFrame] at ofCatcher ofRoot ofFunction
  rw [running, found]
  simp only [Option.bind_eq_bind, Option.bind_some, getElem?_frames inside]
  cases catches : (interpreter.frame caller).catching with
  | some name =>
      rw [ofCatcher name catches]
      rfl
  | none =>
      by_cases isRoot : caller = rootFrame
      · simp only [isRoot, beq_self_eq_true, if_true, ofRoot catches isRoot]
        rfl
      · have runs : (interpreter.frame caller).function.isSome = true := by
          simpa [catches, isRoot] using stops
        obtain ⟨id, isFunction⟩ := Option.isSome_iff_exists.mp runs
        rw [ofFunction id catches isRoot isFunction, isFunction]
        simp only [beq_iff_eq, isRoot, if_false]
        rfl

theorem runningCode_eq
    {interpreter : Interpreter σ}
    (framed : interpreter.WellFramed) :
    runningCode interpreter = some (Command.runningCode interpreter) := by
  rw [Command.runningCode]
  refine running_eq framed _ _ _ ?_ ?_ ?_
  · intro name catches
    simp [catches]
  · intro catches isRoot
    simp only [catches]
    simp [isRoot]
  · intro id catches notRoot isFunction
    simp [catches, notRoot, isFunction]

theorem runningName_eq
    {interpreter : Interpreter σ}
    (framed : interpreter.WellFramed) :
    runningName interpreter = some (Command.runningName interpreter) := by
  rw [Command.runningName]
  refine running_eq framed _ _ _ ?_ ?_ ?_
  · intro name catches
    simp [catches]
  · intro catches isRoot
    simp only [catches]
    simp [isRoot]
  · intro id catches notRoot isFunction
    simp [catches, notRoot, isFunction]

theorem answer_eq
    (topic : Command.Topic)
    {interpreter : Interpreter σ}
    (framed : interpreter.WellFramed)
    (subject : Text) :
    answer topic interpreter subject = some (topic.answer interpreter subject) := by
  cases topic with
  | code => exact runningCode_eq framed
  | name => exact runningName_eq framed
  | _ => rfl

/-- Questions about an interpreter are answered within its tree of frames. -/
theorem reflect_eq
    (arguments : List Text)
    {machine : Machine σ}
    (framed : machine.interpreter.WellFramed) :
    reflect arguments machine = Command.reflect arguments machine := by
  cases arguments with
  | nil =>
      rfl
  | cons word rest =>
      rw [reflect, Command.reflect]
      cases Command.Topic.ofWord? word with
      | none =>
          rfl
      | some topic =>
          simp only [Eval.interpreter_bind_apply, answer_eq topic framed, access_some]
          rfl

/-! ## Commands -/

/-- The element at a position; nothing outside the list. -/
def index (run : Run σ) : List Text → Eval σ Reply
  | list :: position :: _ => do
      let items ← readList run list
      return .value ((← access (element? items position.toInt?)).getD [])
  | _ => return .badArguments

/-- The elements from a start up to, not including, an end, as a list. -/
def sliceList (run : Run σ) : List Text → Eval σ Reply
  | list :: start :: rest => do
      let items ← readList run list
      return .value (ListText.write (← access
        (segment items (start.toIntD 0).toInt (Command.rangeEnd items.length rest))))
  | _ => return .badArguments

/-- The value of an arithmetic expression. -/
def arithmetic (run : Run σ) (arguments : List Text) : Eval σ Reply := do
  if arguments.isEmpty then return .badArguments
  return .value ((← expression run (Text.joinSpaced arguments)).getD [])

/-- Call built-in commands with checked accesses. -/
def builtins : Builtins σ := fun run rounds command arguments =>
  match command with
  | .reflect => reflect arguments
  | .expression => arithmetic run arguments
  | .index => index run arguments
  | .slice => sliceList run arguments
  | .charAt => access (charAt arguments)
  | .codeAt => access (codeAt arguments)
  | .substring => access (substring arguments)
  | .position => access (position arguments)
  | command => Eval.callBuiltin run rounds command arguments

theorem index_eq
    (run : Run σ)
    (arguments : List Text) :
    index run arguments = Command.index run arguments := by
  rcases arguments with _ | ⟨list, _ | ⟨position, rest⟩⟩
  · rfl
  · rfl
  · simp only [index, Command.index, readList_eq, element?_eq, access_some, pure_bind]
    refine congrArg _ (funext fun items => ?_)
    cases position.toInt? with
    | none => rfl
    | some index =>
        simp only [Option.bind_some, List.getD_eq_getElem?_getD]
        split <;> rfl

theorem sliceList_eq
    (run : Run σ)
    (arguments : List Text) :
    sliceList run arguments = Command.slice run arguments := by
  rcases arguments with _ | ⟨list, _ | ⟨start, rest⟩⟩
  · rfl
  · rfl
  · simp only [sliceList, Command.slice, readList_eq, segment_eq, access_some, pure_bind]

/-- Where the frames are a tree, built-in commands are called within bounds. -/
theorem builtins_eq
    (run : Run σ)
    (rounds : Nat)
    (command : Builtin)
    (arguments : List Text)
    {machine : Machine σ}
    (framed : machine.interpreter.WellFramed) :
    builtins run rounds command arguments machine =
      Eval.callBuiltin run rounds command arguments machine := by
  cases command with
  | reflect => exact reflect_eq arguments framed
  | expression =>
      simp only [builtins, arithmetic, Eval.callBuiltin, Command.arithmetic, expression_eq]
  | index => exact congrFun (index_eq run arguments) machine
  | slice => exact congrFun (sliceList_eq run arguments) machine
  | charAt => rw [builtins, charAt_eq]; rfl
  | codeAt => rw [builtins, codeAt_eq]; rfl
  | substring => rw [builtins, substring_eq]; rfl
  | position => rw [builtins, position_eq]; rfl
  | _ => rfl

/-! ## Evaluation -/

/-- Run code with checked accesses. -/
def evaluate : Nat → Run σ
  | 0 => fun _ _ => throw .exhausted
  | fuel + 1 => script (dispatchWith builtins (evaluate fuel) fuel) (evaluate fuel)

theorem evaluate_eq_via
    (fuel : Nat) :
    evaluate (σ := σ) fuel = Eval.evaluateVia (dispatchWith builtins) fuel := by
  induction fuel with
  | zero =>
      rfl
  | succ fuel inductionHypothesis =>
      funext code ownResult
      rw [evaluate, Eval.evaluateVia, inductionHypothesis, script_eq]

/-- Where the frames are a tree, code runs within bounds. -/
theorem evaluate_eq
    (fuel : Nat)
    (code : Text)
    (ownResult : Bool)
    {machine : Machine σ}
    (held : Scope.framed.holds machine.interpreter) :
    evaluate fuel code ownResult machine = Eval.evaluate fuel code ownResult machine := by
  rw [evaluate_eq_via]
  refine Eval.leading_framing.evaluateVia_eq True.intro Eval.through_framing ?_ fuel code ownResult
    held
  intro other fuel runs command arguments machine held allowed
  rw [builtins_eq other fuel command arguments held.2]
  refine (Eval.Assembled.callBuiltin fuel allowed arguments).congr Eval.leading_framing
    (Eval.through_framing fuel) held ?_
  intro call reached
  cases reached with
  | here code ownResult led =>
      exact runs code ownResult (led.2 held)
  | jailed clean code _ led =>
      exact runs code true (Eval.framed_jailMachine clean (led.2 held).1)

end LittleScript.Guarded

namespace LittleScript.Eval

variable {σ : Type}

/--
No script crashes its host.  On every machine that a host gets to without commands of its own, an
evaluation with every access checked is the usual one and only ever stops for want of fuel, nesting
too deeply included.  Lists, expressions and errors come out the same with every access checked,
whatever they are read from.
-/
theorem evaluation_stays_within_bounds
    (machine : Machine σ)
    (reachable : machine.Reachable)
    (fuel : Nat)
    (context : Context)
    (code : Text) :
    machine.perform (evaluateIn (Guarded.evaluate fuel) context code) =
      machine.perform (evaluateIn (evaluate fuel) context code) ∧
    (∀ stop, (machine.perform (evaluateIn (evaluate fuel) context code)).1 = .stopped stop →
      stop = .exhausted) ∧
    (∀ (run : Run σ) (text : Text), Guarded.readList run text = readList run text) ∧
    (∀ (run : Run σ) (text : Text), Guarded.expression run text = expression run text) ∧
    ∀ (reason : Reason) (source : Text) (offset : Int),
      Guarded.locate reason source offset = some (.locate reason source offset) := by
  obtain ⟨idle, free, framed⟩ := reachable.framed
  have held : Scope.framed.holds (outermostCall context code machine).machine.interpreter :=
    ⟨free, framed.of_sameParents (.of_frames rfl) rfl rfl⟩
  refine ⟨?_, fun _ => stopped_exhausted fuel context code free idle,
    fun run text => (Guarded.readList_eq run text).symm,
    fun run text => (Guarded.expression_eq run text).symm, Guarded.locate_eq⟩
  have same := Guarded.evaluate_eq fuel code true held
  rw [Machine.perform, Machine.perform, evaluateIn_congr same]

/-! ## A script that tries the bounds -/

/-- A machine in a frame that its host has made. -/
def cornered : Machine Unit :=
  ((Machine.start () {} {}).perform pushFrame).2

/--
A script that asks for what is running in that frame, looks before the beginning of a text, shifts
by what it finds there, and ends with a backslash inside quotes.
-/
def prying : Text :=
  Text.ofString "set x [expr 1 << 0[charat [reflect this] -1]]; print \"$x\\"

/-- Why an evaluation has failed. -/
def complaint : Outcome Evaluated → Option Reason
  | .finished ⟨_, some (.script error)⟩ => some error.reason
  | _ => none

theorem cornered_reachable :
    cornered.Reachable := by
  have configured : ({} : Configuration).interpreter ({} : Callbacks Unit) =
      .ok (.fresh {} {}) := rfl
  exact .pushed (.configured _ configured)

/-- A script that looks for what is not there fails with an open quote, and does not crash. -/
theorem evaluation_stays_within_bounds_cornered :
    cornered.Reachable ∧
      cornered.perform (evaluateIn (Guarded.evaluate 4) .background prying) =
        cornered.perform (evaluateIn (evaluate 4) .background prying) ∧
      complaint (cornered.perform (evaluateIn (evaluate 4) .background prying)).1 =
        some (.malformed .openQuote) :=
  ⟨cornered_reachable,
    (evaluation_stays_within_bounds cornered cornered_reachable 4 .background prying).1,
    by decide +kernel⟩

end LittleScript.Eval
