import LittleScript.Command.Control
import LittleScript.Command.Evaluation
import LittleScript.Command.Files
import LittleScript.Command.Lists
import LittleScript.Command.Reflection
import LittleScript.Command.Strings
import LittleScript.Command.Variables

namespace LittleScript.Eval

/-!
# Calling commands

The first word of a command names a built-in command, a host command or a script function; an
unknown name goes to the catcher, if there is one.
-/

variable {σ : Type}

/-- Call a built-in command; `rounds` bounds the rounds of a loop. -/
def callBuiltin (run : Run σ) (rounds : Nat) (command : Builtin) (arguments : List Text) :
    Eval σ Reply :=
  match command with
  | .reflect => Command.reflect arguments
  | .defineFunction => Command.defineFunction run arguments
  | .rename => Command.rename arguments
  | .unusedName => Command.unusedName arguments
  | .setVariable => Command.setVariable run arguments
  | .declareLocal => Command.declareLocal run arguments
  | .evaluate => Command.joined (run · false) arguments
  | .upEvaluate => Command.joined (upEvaluate run) arguments
  | .downEvaluate => Command.joined (downEvaluate run) arguments
  | .topEvaluate => Command.joined (topEvaluate run) arguments
  | .isolatedEvaluate => Command.isolated run arguments
  | .jailEvaluate => Command.jailed run arguments
  | .returnValue => Command.returnValue arguments
  | .setResult => Command.setResult arguments
  | .catcher => Command.catcher arguments
  | .watch => Command.watch arguments
  | .expression => Command.arithmetic run arguments
  | .increment => Command.adjust run false arguments
  | .decrement => Command.adjust run true arguments
  | .conditional => Command.conditional run arguments
  | .whileLoop => Command.whileLoop run rounds arguments
  | .forLoop => Command.forLoop run rounds arguments
  | .forEach => Command.forEach run arguments
  | .attempt => Command.attempt run arguments
  | .raise => Command.raiseError arguments
  | .exit => Command.exit arguments
  | .print => Command.print arguments
  | .write => Command.write arguments
  | .read => Command.read arguments
  | .store => Command.store arguments
  | .source => Command.source run arguments
  | .list => return .value (ListText.write arguments)
  | .count => Command.count run arguments
  | .index => Command.index run arguments
  | .indexOf => Command.indexOf run arguments
  | .append => Command.append run arguments
  | .slice => Command.slice run arguments
  | .filter => Command.filter run arguments
  | .mapNames => Command.mapNames run arguments
  | .concat => Command.concat run arguments []
  | .substitute => Command.substitute run arguments
  | .split => return Command.split arguments
  | .quote => return .value (Text.joinSpaced arguments)
  | .length => return Command.length arguments
  | .char => return Command.char arguments
  | .charAt => return Command.charAt arguments
  | .codeAt => return Command.codeAt arguments
  | .substring => return Command.substring arguments
  | .position => return Command.position arguments
  | .trim => return Command.trimWith Text.trim arguments
  | .trimLeft => return Command.trimWith Text.trimLeft arguments
  | .trimRight => return Command.trimWith Text.trimRight arguments
  | .compare => return Command.compare arguments
  | .equal => return Command.equal arguments
  | .replace => return Command.replace arguments
  | .random => Command.random

/-- Perform what a host command asks for, step by step. -/
def perform (run : Run σ) : HostAction σ → Eval σ Reply
  | .reply answer => return answer
  | .crash => throw .crash
  | .touch update next => do
      touch update
      perform run next
  | .run code ownResult next => do
      let value ← run code ownResult
      perform run (next value)
  | .evaluate code next => do
      let evaluated ← evaluateIn run .background code
      match evaluated.failure with
      | some failure => perform run (next (.error failure))
      | none => perform run (next (.ok evaluated.value))
  | .raise message next => do
      raise (.raised message)
      perform run next
  | .raiseAt offset message next => do
      raiseInnermost offset (.raised message)
      perform run next
  | .pendingError next => do
      let error ← inspect Interpreter.error
      perform run (next error)
  | .clearError next => do
      clearError
      perform run next
  | .pushFrame next => do
      pushFrame
      perform run next
  | .popFrame next => do
      popFrame
      perform run next
  | .frameDepth next => do
      let depth ← inspect fun interpreter => interpreter.frameChain.length - 1
      perform run (next depth)
  | .frameFunction next => do
      let name ← inspect fun interpreter =>
        (interpreter.currentFrame.function.bind interpreter.function?).map Function.name
      perform run (next name)
  | .setVariable name value mode next => do
      let stored ← setVariable run name value mode
      perform run (next stored)
  | .watch name code next => do
      watch name code
      perform run next
  | .upEvaluate code next => do
      let value ← upEvaluate run code
      perform run (next value)
  | .downEvaluate code next => do
      let value ← downEvaluate run code
      perform run (next value)
  | .topEvaluate code next => do
      let value ← topEvaluate run code
      perform run (next value)
  | .isolatedEvaluate code imports exports next => do
      let value ← isolatedEvaluate run code imports exports
      perform run (next value)

/-- Count how a native command ended, and raise its error if it failed. -/
def settle (reply : Reply) : Eval σ Text := do
  match reply with
  | .value text =>
      change fun interpreter => { interpreter with
        statistics.successes := interpreter.statistics.successes + 1 }
      return text
  | .badArguments =>
      change fun interpreter => { interpreter with
        statistics.argumentErrors := interpreter.statistics.argumentErrors + 1 }
      return []
  | .failed reason =>
      change fun interpreter => { interpreter with
        statistics.commandErrors := interpreter.statistics.commandErrors + 1 }
      raise reason
      return []

/-- The parameter that takes all arguments left over. -/
def restParameter : Text := Text.ofString "args"

/-- The value of each parameter: its argument, or empty; a last `args` takes the rest as a list. -/
def bindings : List Text → List Text → List (Text × Text)
  | [], _ => []
  | [name], arguments =>
      if name == restParameter then [(name, ListText.write arguments)]
      else [(name, arguments.headD [])]
  | name :: rest, arguments => (name, arguments.headD []) :: bindings rest arguments.tail

/-- Run the body of a script function in a frame of its own. -/
def callScript (run : Run σ) (id : FunctionId) (name : Text) (parameters : List Text)
    (body : Text) (arguments : List Text) : Eval σ Text := do
  log "call function" [("name", .text name), ("args", .number arguments.length)]
  let caller ← inspect Interpreter.current
  inNewFrame { parent := some caller, function := some id } do
    setVariables run .fresh (bindings parameters arguments)
    run body true

/-- Run the catcher for an unknown command in a frame of its own. -/
def callCatcher (run : Run σ) (command : List Text) : Eval σ Text := do
  let name := command.headD []
  let interpreter ← interpreter
  if interpreter.limits.catchers ≤ interpreter.catchers then
    raise (.catcherLimit name)
    return []
  log "catcher invoked" [("name", .text name)]
  change fun interpreter => { interpreter with catchers := interpreter.catchers + 1 }
  let catching := inNewFrame { parent := some interpreter.current, catching := some name } do
    let _ ← setVariable run restParameter (ListText.write command) .fresh
    run (← inspect Interpreter.catcher) true
  ensuring catching fun machine =>
    { machine with interpreter :=
        { machine.interpreter with catchers := interpreter.catchers } }

/-- Call the command that the first word names. -/
def dispatch (run : Run σ) (rounds : Nat) (command : List Text) : Eval σ Text := do
  let name := command.headD []
  let arguments := command.tail
  let interpreter ← interpreter
  match interpreter.commands.get? name with
  | some id =>
      match interpreter.function? id with
      | some ⟨_, .builtin builtin⟩ => settle (← callBuiltin run rounds builtin arguments)
      | some ⟨_, .host action⟩ => settle (← perform run (action arguments))
      | some ⟨currentName, .script parameters body⟩ =>
          callScript run id currentName parameters body arguments
      | none => return []
  | none =>
      if name.isEmpty then return []
      if interpreter.catcher.isEmpty then
        raise (.unknownCommand name)
        return []
      callCatcher run command

end LittleScript.Eval
