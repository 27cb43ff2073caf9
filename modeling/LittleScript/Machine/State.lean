import LittleScript.Command.Builtin
import LittleScript.Machine.World
import LittleScript.Table

namespace LittleScript

/-!
# The state of an interpreter

An interpreter holds frames, functions and the table of commands, the catcher and the dollar
expansion, and the control state of the evaluations that are running: the current and the down
frame, the starts of the commands being run, the pending error and the context.

Frames and functions are named by their place in the interpreter, so that a frame keeps its
identity while evaluation moves up and down, and a function keeps its identity when it is renamed.

A host reaches an evaluation in two ways.  A host command takes the steps of `HostAction`: it
evaluates, assigns, watches, moves between frames and raises errors, but it does not register,
rename or delete commands, exchange callbacks or open jails while it runs; a host does that between
evaluations.  A callback sees and changes the world only, and it fails with a message.
-/

/-- The name of a frame. -/
abbrev FrameId := Nat

/-- The name of a function. -/
abbrev FunctionId := Nat

/-- The frame of global variables. -/
def rootFrame : FrameId := 0

/--
A variable: the name and the frame that it was defined with, its value, and the code to run when it
is assigned.
-/
structure Variable where
  name : Text
  owner : FrameId
  value : Text
  watch : Text := []
  deriving Repr, DecidableEq

/-- A call frame. -/
structure Frame where
  parent : Option FrameId := none
  bindings : Table Variable := {}
  /-- The function that runs in the frame. -/
  function : Option FunctionId := none
  /-- The value that a `return` or `result` has provided. -/
  result : Option Text := none
  /-- Whether a `return` ends the code of the frame. -/
  stopping : Bool := false
  /-- The unknown command for which a catcher runs in the frame. -/
  catching : Option Text := none

instance : Inhabited Frame := ⟨{}⟩

/-- A frame that has been left: its variables and its result are gone. -/
def Frame.release (frame : Frame) : Frame :=
  { frame with bindings := {}, result := none, catching := none }

/-- What a command answers to its caller. -/
inductive Reply where
  | value (text : Text)
  /-- The arguments do not fit; this is counted and has no other effect. -/
  | badArguments
  | failed (reason : Reason)

namespace Eval

/-- Which frame an assignment writes to. -/
inductive Mode where
  /-- The root frame. -/
  | global
  /-- The variable the name means, or else a new one in the current frame. -/
  | visible
  /-- Always a new variable in the current frame. -/
  | fresh
  /-- The variable of the current frame, or else a new one there. -/
  | own
  deriving Repr, DecidableEq

end Eval

/--
What a host command does with the interpreter that calls it, step by step; the continuation
receives what a step answers.
-/
inductive HostAction (σ : Type) where
  | reply (answer : Reply)
  /-- Break the rules of the host's own language, which no evaluation survives. -/
  | crash
  | touch (change : World σ → World σ) (next : HostAction σ)
  | run (code : Text) (ownResult : Bool) (next : Text → HostAction σ)
  | evaluate (code : Text) (next : Except Failure Text → HostAction σ)
  | raise (message : Text) (next : HostAction σ)
  | raiseAt (offset : Int) (message : Text) (next : HostAction σ)
  | pendingError (next : Option ScriptError → HostAction σ)
  | clearError (next : HostAction σ)
  | pushFrame (next : HostAction σ)
  | popFrame (next : HostAction σ)
  | frameDepth (next : Nat → HostAction σ)
  | frameFunction (next : Option Text → HostAction σ)
  | setVariable (name value : Text) (mode : Eval.Mode) (next : Option Text → HostAction σ)
  | watch (name code : Text) (next : HostAction σ)
  | upEvaluate (code : Text) (next : Text → HostAction σ)
  | downEvaluate (code : Text) (next : Text → HostAction σ)
  | topEvaluate (code : Text) (next : Text → HostAction σ)
  | isolatedEvaluate (code : Text) (imports exports : List Text) (next : Text → HostAction σ)

/-- What a function does. -/
inductive Definition (σ : Type) where
  | builtin (command : Builtin)
  | host (command : List Text → HostAction σ)
  | script (parameters : List Text) (body : Text)

/-- Whether a function is not written in the language itself. -/
def Definition.isNative {σ : Type} : Definition σ → Bool
  | .script _ _ => false
  | _ => true

/-- A function with the name it goes by. -/
structure Function (σ : Type) where
  name : Text
  definition : Definition σ

/-- What a host makes of an assignment to a global variable. -/
inductive Assignment where
  | veto
  | accept
  | replace (value : Text)
  deriving Repr, DecidableEq

/-- What the host wants to handle itself; a missing entry leaves the default. -/
structure Callbacks (σ : Type) where
  exit : Option (Option Text → World σ → World σ) := none
  write : Option (Text → World σ → World σ) := none
  read : Option (Text → World σ → Except Text Text × World σ) := none
  store : Option (Text → Text → World σ → Except Text Unit × World σ) := none
  source : Option (Text → World σ → Except Text Text × World σ) := none
  error : Option (ScriptError → World σ → World σ) := none
  setVariable : Option (Text → Text → World σ → Assignment × World σ) := none
  /-- The answer is absent, or a value that may itself be absent. -/
  getVariable : Option (Text → World σ → Option (Option Text) × World σ) := none

/-- How many evaluations may be nested, and how many catchers. -/
structure Limits where
  evaluations : Nat := 1000
  catchers : Nat := 16384
  deriving Repr, DecidableEq

/-- Counts of how native commands ended. -/
structure Statistics where
  successes : Nat := 0
  argumentErrors : Nat := 0
  commandErrors : Nat := 0
  deriving Repr, DecidableEq

/-- Whether evaluation heeds the cancellation of the running context. -/
inductive Context where
  | background
  | running
  deriving Repr, DecidableEq

/-- The state of an interpreter. -/
structure Interpreter (σ : Type) where
  limits : Limits := {}
  callbacks : Callbacks σ := {}
  frames : Array Frame := #[{}]
  current : FrameId := rootFrame
  /-- The frame from which evaluation went up, if it did. -/
  down : Option FrameId := none
  functions : Array (Function σ) := #[]
  commands : Table FunctionId := {}
  /-- The commands of a fresh interpreter. -/
  system : Table FunctionId := {}
  catcher : Text := []
  /-- How many catchers are running. -/
  catchers : Nat := 0
  /-- The code that a dollar stands for, to be followed by the name. -/
  dollar : Text := Text.ofString "set "
  /-- Where in its text each running evaluation has its current command, the innermost first. -/
  active : List Nat := []
  /-- The text of the outermost evaluation. -/
  source : Text := []
  error : Option ScriptError := none
  context : Context := .background
  statistics : Statistics := {}

namespace Interpreter

variable {σ : Type}

/-- How many evaluations are running. -/
def depth (interpreter : Interpreter σ) : Nat :=
  interpreter.active.length

/-- The frame under a name. -/
def frame (interpreter : Interpreter σ) (id : FrameId) : Frame :=
  interpreter.frames.getD id {}

/-- The current frame. -/
def currentFrame (interpreter : Interpreter σ) : Frame :=
  interpreter.frame interpreter.current

/-- Change the frame under a name. -/
def updateFrame (interpreter : Interpreter σ) (id : FrameId) (change : Frame → Frame) :
    Interpreter σ :=
  { interpreter with frames := interpreter.frames.modify id change }

/-- Change the current frame. -/
def updateCurrent (interpreter : Interpreter σ) (change : Frame → Frame) : Interpreter σ :=
  interpreter.updateFrame interpreter.current change

/-- Add a frame; its name comes with the interpreter. -/
def addFrame (interpreter : Interpreter σ) (frame : Frame) : FrameId × Interpreter σ :=
  (interpreter.frames.size, { interpreter with frames := interpreter.frames.push frame })

/-- The function under a name. -/
def function? (interpreter : Interpreter σ) (id : FunctionId) : Option (Function σ) :=
  interpreter.functions[id]?

/-- The command of a name. -/
def command? (interpreter : Interpreter σ) (name : Text) : Option (Function σ) :=
  (interpreter.commands.get? name).bind interpreter.function?

/-- The command that a fresh interpreter has under a name, even if it has since been changed. -/
def systemCommand? (interpreter : Interpreter σ) (name : Text) : Option (Function σ) :=
  (interpreter.system.get? name).bind interpreter.function?

/-- Define a command, replacing the one of that name. -/
def define (interpreter : Interpreter σ) (name : Text) (definition : Definition σ) :
    Interpreter σ :=
  { interpreter with
    functions := interpreter.functions.push ⟨name, definition⟩
    commands := interpreter.commands.insert name interpreter.functions.size }

/-- Move a command to a new name, or delete it when the new name is empty. -/
def rename (interpreter : Interpreter σ) (old new : Text) :
    Except Reason (Interpreter σ) :=
  match interpreter.commands.get? old with
  | none => .error (.unknownFunction old)
  | some id =>
      let remaining := interpreter.commands.erase old
      if new.isEmpty then .ok { interpreter with commands := remaining }
      else
        .ok { interpreter with
          functions := interpreter.functions.modify id fun function =>
            { function with name := new }
          commands := remaining.insert new id }

/-- Delete a command. -/
def delete (interpreter : Interpreter σ) (name : Text) : Interpreter σ :=
  { interpreter with commands := interpreter.commands.erase name }

/-- The variable that a name means in a frame, with the frame that holds it. -/
def lookup? (interpreter : Interpreter σ) (id : FrameId) (name : Text) :
    Option (FrameId × Variable) :=
  match (interpreter.frame id).bindings.get? name with
  | some found => some (id, found)
  | none =>
      ((interpreter.frame rootFrame).bindings.get? name).map fun found => (rootFrame, found)

/-- The variable that a name means in the current frame. -/
def visible? (interpreter : Interpreter σ) (name : Text) : Option (FrameId × Variable) :=
  interpreter.lookup? interpreter.current name

/-- Put a variable into a frame. -/
def putVariable (interpreter : Interpreter σ) (id : FrameId) (name : Text)
    (entry : Variable) : Interpreter σ :=
  interpreter.updateFrame id fun frame =>
    { frame with bindings := frame.bindings.insert name entry }

/-- The names of the global variables. -/
def globalNames (interpreter : Interpreter σ) : List Text :=
  (interpreter.frame rootFrame).bindings.names

/-- A name made from a part and a number, which no one would choose by chance. -/
def numberedName (part : Text) (number : Nat) : Text :=
  Text.ofString "!!un!" ++ part ++ [Byte.bang] ++ Text.ofNatPadded 9 number ++
    Text.ofString "!nu!!"

/-- Whether a name is neither a command nor a visible variable. -/
def isUnused (interpreter : Interpreter σ) (name : Text) : Bool :=
  !interpreter.commands.contains name && (interpreter.visible? name).isNone

/-- The first unused name from a number on. -/
def unusedFrom (interpreter : Interpreter σ) (part : Text) : Nat → Nat → Text
  | 0, number => numberedName part number
  | bound + 1, number =>
      if interpreter.isUnused (numberedName part number) then numberedName part number
      else unusedFrom interpreter part bound (number + 1)

/-- A name that is neither a command nor a visible variable; there are fewer of these than tries. -/
def unusedName (interpreter : Interpreter σ) (part : Text) : Text :=
  let taken := interpreter.commands.size + interpreter.currentFrame.bindings.size +
    (interpreter.frame rootFrame).bindings.size
  unusedFrom interpreter part (taken + 1) 0

/-- Walk toward the root to the first frame of a function or a catcher. -/
def callerFrom (interpreter : Interpreter σ) : Nat → FrameId → FrameId
  | 0, id => id
  | bound + 1, id =>
      let frame := interpreter.frame id
      if id == rootFrame || frame.catching.isSome || frame.function.isSome then id
      else callerFrom interpreter bound (frame.parent.getD rootFrame)

/-- The frame of the function or catcher that is running, or the root frame. -/
def callerFrame (interpreter : Interpreter σ) : FrameId :=
  interpreter.callerFrom interpreter.frames.size interpreter.current

/-- The frames from one to the root. -/
def ancestry (interpreter : Interpreter σ) : Nat → FrameId → List FrameId
  | 0, _ => []
  | bound + 1, id =>
      match (interpreter.frame id).parent with
      | some parent => id :: interpreter.ancestry bound parent
      | none => [id]

/-- The current frame, its parent, and so on to the root. -/
def frameChain (interpreter : Interpreter σ) : List FrameId :=
  interpreter.ancestry interpreter.frames.size interpreter.current

/-- The host's commands: native ones that are not where a fresh interpreter has them. -/
def hostCommands (interpreter : Interpreter σ) : List (Function σ) :=
  interpreter.commands.entries.filterMap fun (name, id) =>
    match interpreter.function? id with
    | some function =>
        if function.definition.isNative && interpreter.system.get? name != some id then
          some function
        else none
    | none => none

/-- Register the built-in commands and remember them as the system's. -/
def withBuiltins (interpreter : Interpreter σ) : Interpreter σ :=
  let registered := Builtin.all.foldl
    (fun interpreter command => interpreter.define command.name (.builtin command)) interpreter
  { registered with system := registered.commands }

/-- A fresh interpreter. -/
def fresh (limits : Limits) (callbacks : Callbacks σ) : Interpreter σ :=
  withBuiltins { limits, callbacks }

end Interpreter

/-- What a host asks of a new interpreter; zero and the empty text stand for the defaults. -/
structure Configuration where
  evaluations : Int := 0
  catchers : Int := 0
  dollar : Text := []
  deriving Repr, DecidableEq

/-- Why a configuration is refused. -/
inductive ConfigurationError where
  | negativeEvaluations
  | negativeCatchers
  deriving Repr, DecidableEq

/-- The wording of a refusal. -/
def ConfigurationError.message : ConfigurationError → Text
  | .negativeEvaluations => Text.ofString "lil: MaxParseDepth must not be negative"
  | .negativeCatchers => Text.ofString "lil: MaxCatcherDepth must not be negative"

/-- A fresh interpreter for a configuration. -/
def Configuration.interpreter {σ : Type} (configuration : Configuration)
    (callbacks : Callbacks σ) : Except ConfigurationError (Interpreter σ) :=
  if configuration.evaluations < 0 then .error .negativeEvaluations
  else if configuration.catchers < 0 then .error .negativeCatchers
  else
    let defaults : Limits := {}
    let limits : Limits :=
      { evaluations :=
          if configuration.evaluations = 0 then defaults.evaluations
          else configuration.evaluations.toNat
        catchers :=
          if configuration.catchers = 0 then defaults.catchers
          else configuration.catchers.toNat }
    let interpreter := Interpreter.fresh limits callbacks
    if configuration.dollar.isEmpty then .ok interpreter
    else .ok { interpreter with dollar := configuration.dollar }

end LittleScript
