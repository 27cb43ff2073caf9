import LittleScript.Script.Host
import LittleScript.Session.HostCommand

namespace LittleScript.Session

/-!
# Sessions

A host drives one interpreter step by step.  Every step is reported with its answer, the failure it
ended with, and what it wrote, called and logged.  A step that stops is reported as well, and the
next one finds the machine as it was left.
-/

/-- A step of the host. -/
inductive Step where
  /-- Evaluate code in a context that may have been cancelled before. -/
  | evaluate (code : Text) (cancellation : Option Cancellation)
  | run (code : Text) (ownResult : Bool)
  | expression (code : Text)
  | readList (code : Text)
  | readJoined (code : Text)
  | upEvaluate (code : Text)
  | downEvaluate (code : Text)
  | topEvaluate (code : Text)
  | isolatedEvaluate (code : Text) (imports exports : List Text)
  | jailEvaluate (code : Text) (clean : Bool)
  | setVariable (name value : Text) (mode : Eval.Mode)
  | getVariable (name : Text)
  | getVariableD (name : Text) (default : Option Text)
  | watch (name code : Text)
  | pushFrame
  | popFrame
  | frames
  | globals
  | commands
  | command (name : Text)
  | systemCommand (name : Text)
  | rename (name new : Text)
  | delete (name : Text)
  | unusedName (part : Text)
  | register (name : Text) (command : HostCommand)
  | catcher
  | dollar
  | setCatcher (code : Text)
  | setDollar (code : Text)
  | raise (message : Text)
  | raiseAt (offset : Int) (message : Text)
  | clearError
  | pendingError
  | statistics
  | setCallbacks (plan : Plan)
  | callbacks
  deriving Repr, DecidableEq

/-- A variable as a host sees it. -/
structure VariableView where
  name : Text
  value : Text
  watch : Text
  deriving Repr, DecidableEq

/-- A frame as a host sees it. -/
structure FrameView where
  bindings : List VariableView
  isRoot : Bool
  function : Option Text
  deriving Repr, DecidableEq

/-- A command as a host sees it; only functions of the language have parameters and a body. -/
structure CommandView where
  name : Text
  body : Option (List Text × Text)
  deriving Repr, DecidableEq

/-- What a step answers. -/
inductive Answer where
  | nothing
  | value (text : Option Text)
  | list (texts : List Text)
  /-- What a variable holds after an assignment, unless nothing was stored. -/
  | stored (value : Option Text)
  | frames (frames : List FrameView)
  | command (view : Option CommandView)
  | deleted (existed : Bool)
  | pending (present : Bool)
  | statistics (counts : Statistics)
  /-- Which callbacks are set: exit, write, read, store, source, error, and of variables. -/
  | callbacks (present : List Bool)
  deriving Repr, DecidableEq

/-- How a step failed. -/
inductive Trouble where
  | failure (failure : Failure)
  | refused (reason : Reason)
  | stopped (stop : Stop)
  deriving Repr, DecidableEq

/-- The report of a step. -/
structure Report where
  /-- There is no answer when the step stopped. -/
  answer : Option Answer
  trouble : Option Trouble
  output : Text
  events : List Event
  log : List LogEntry
  deriving Repr, DecidableEq

/-- The view of a frame. -/
def viewFrame (interpreter : Interpreter Recorder) (id : FrameId) : FrameView :=
  let frame := interpreter.frame id
  { bindings := frame.bindings.entries.map fun (name, held) => ⟨name, held.value, held.watch⟩
    isRoot := id == rootFrame
    function := (frame.function.bind interpreter.function?).map Function.name }

/-- The view of a command. -/
def viewCommand (function : Function Recorder) : CommandView :=
  match function.definition with
  | .script parameters body => ⟨function.name, some (parameters, body)⟩
  | _ => ⟨function.name, none⟩

/-- Which callbacks are set. -/
def presentCallbacks (callbacks : Callbacks Recorder) : List Bool :=
  [callbacks.exit.isSome, callbacks.write.isSome, callbacks.read.isSome, callbacks.store.isSome,
    callbacks.source.isSome, callbacks.error.isSome, callbacks.setVariable.isSome,
    callbacks.getVariable.isSome]

/-- What a step comes to when it does not stop. -/
abbrev StepResult := Answer × Option Trouble

/-- An action of the host with what it answers and no failure. -/
def plainly {α : Type} (action : Eval Recorder α) (answer : α → Answer) :
    Eval Recorder StepResult := do
  return (answer (← action), none)

/-- An action of the host that fails when an error is pending afterwards. -/
def checked {α : Type} (action : Eval Recorder α) (answer : α → Answer) :
    Eval Recorder StepResult := do
  let value ← action
  let error ← Eval.inspect Interpreter.error
  return (answer value, error.map fun error => .failure (.script error))

/-- Code that is run in some way and answers a value. -/
def checkedValue (action : Eval Recorder Text) : Eval Recorder StepResult :=
  checked action fun value => .value (some value)

/-- Evaluate code in a context of its own. -/
def evaluateStep (code : Text) (cancellation : Option Cancellation) :
    Eval Recorder StepResult := do
  Eval.touch fun world => { world with cancellation }
  let evaluated ← Eval.evaluateCode .running code
  return (.value (some evaluated.value), evaluated.failure.map .failure)

/-- Rename a command. -/
def renameStep (name new : Text) : Eval Recorder StepResult := do
  match (← Eval.interpreter).rename name new with
  | .ok interpreter =>
      Eval.change fun _ => interpreter
      return (.nothing, none)
  | .error reason => return (.nothing, some (.refused reason))

/-- Delete a command and tell whether it was there. -/
def deleteCommand (name : Text) : Eval Recorder Bool := do
  let existed ← Eval.inspect fun interpreter => interpreter.commands.contains name
  Eval.change fun interpreter => interpreter.delete name
  return existed

/-- Replace the callbacks of the interpreter. -/
def adoptPlan (plan : Plan) : Eval Recorder Unit := do
  Eval.touch fun world => world.mapHost plan.prepare
  Eval.change fun interpreter => { interpreter with callbacks := plan.callbacks }

/-- What a step does. -/
def Step.action : Step → Eval Recorder StepResult
  | .evaluate code cancellation => evaluateStep code cancellation
  | .run code ownResult => checkedValue (Eval.runCode code ownResult)
  | .expression code => checked (Eval.expression Eval.runCode code) .value
  | .readList code => checked (Eval.readList Eval.runCode code) .list
  | .readJoined code => checkedValue (Eval.readJoined Eval.runCode code)
  | .upEvaluate code => checkedValue (Eval.upEvaluate Eval.runCode code)
  | .downEvaluate code => checkedValue (Eval.downEvaluate Eval.runCode code)
  | .topEvaluate code => checkedValue (Eval.topEvaluate Eval.runCode code)
  | .isolatedEvaluate code imports exports =>
      checkedValue (Eval.isolatedEvaluate Eval.runCode code imports exports)
  | .jailEvaluate code clean => checkedValue (Eval.jailEvaluate Eval.runCode code clean)
  | .setVariable name value mode =>
      checked (Eval.setVariable Eval.runCode name value mode) .stored
  | .getVariable name => plainly (Eval.getVariableD name (some [])) .value
  | .getVariableD name default => plainly (Eval.getVariableD name default) .value
  | .watch name code => plainly (Eval.watch name code) fun _ => .nothing
  | .pushFrame => plainly Eval.pushFrame fun _ => .nothing
  | .popFrame => plainly Eval.popFrame fun _ => .nothing
  | .frames => plainly Eval.interpreter fun interpreter =>
      .frames (interpreter.frameChain.map (viewFrame interpreter))
  | .globals => plainly (Eval.inspect Interpreter.globalNames) .list
  | .commands => plainly (Eval.inspect fun interpreter => interpreter.commands.names) .list
  | .command name => plainly (Eval.inspect (·.command? name)) fun found =>
      .command (found.map viewCommand)
  | .systemCommand name => plainly (Eval.inspect (·.systemCommand? name)) fun found =>
      .command (found.map viewCommand)
  | .rename name new => renameStep name new
  | .delete name => plainly (deleteCommand name) .deleted
  | .unusedName part => plainly (Eval.inspect (·.unusedName part)) fun name => .value (some name)
  | .register name offered =>
      plainly (Eval.change (·.define name (.host offered.action))) fun _ => .nothing
  | .catcher => plainly (Eval.inspect Interpreter.catcher) fun code => .value (some code)
  | .dollar => plainly (Eval.inspect Interpreter.dollar) fun code => .value (some code)
  | .setCatcher code =>
      plainly (Eval.change fun interpreter => { interpreter with catcher := code })
        fun _ => .nothing
  | .setDollar code =>
      plainly (Eval.change fun interpreter => { interpreter with dollar := code })
        fun _ => .nothing
  | .raise message => checked (Eval.raise (.raised message)) fun _ => .nothing
  | .raiseAt offset message =>
      checked (Eval.raiseInnermost offset (.raised message)) fun _ => .nothing
  | .clearError => plainly Eval.clearError fun _ => .nothing
  | .pendingError => checked Eval.hasError .pending
  | .statistics => plainly (Eval.inspect Interpreter.statistics) .statistics
  | .setCallbacks plan => plainly (adoptPlan plan) fun _ => .nothing
  | .callbacks => plainly (Eval.inspect Interpreter.callbacks) fun callbacks =>
      .callbacks (presentCallbacks callbacks)

/-- The world with an empty record of what it saw. -/
def clearRecord (world : World Recorder) : World Recorder :=
  { world with written := [], records := [], host := world.host.forget }

/-- Perform a step and report it. -/
def performStep (machine : Machine Recorder) (step : Step) : Report × Machine Recorder :=
  let (outcome, after) := machine.perform step.action
  let (answer, trouble) :=
    match outcome with
    | .finished (answer, trouble) => (some answer, trouble)
    | .stopped stop => (none, some (.stopped stop))
  let world := after.world
  (⟨answer, trouble, world.output, world.host.history, world.log⟩,
    { after with world := clearRecord world })

/-- Perform steps one after the other; the reports come with the machine that is left. -/
def performSteps (machine : Machine Recorder) :
    List Step → List Report × Machine Recorder
  | [] => ([], machine)
  | step :: rest =>
      let (report, after) := performStep machine step
      let (reports, last) := performSteps after rest
      (report :: reports, last)

/-- A machine for a configuration and a plan. -/
def start (configuration : Configuration) (plan : Plan) (files : FileSystem) :
    Except ConfigurationError (Machine Recorder) :=
  match configuration.interpreter plan.callbacks with
  | .error error => .error error
  | .ok interpreter =>
      .ok { interpreter, world := { host := plan.prepare {}, files } }

end LittleScript.Session
