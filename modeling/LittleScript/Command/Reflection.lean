import LittleScript.Script.Scope

namespace LittleScript.Command

/-!
# Commands about the interpreter itself
-/

open Eval

variable {σ : Type}

/-- The version of the language. -/
def version : Text := Text.ofString "0.1"

/-- The parameters and the body of a script function. -/
def scriptOf (function : Option (Function σ)) : Option (List Text × Text) :=
  match function with
  | some ⟨_, .script parameters body⟩ => some (parameters, body)
  | _ => none

/-- The names visible in the current frame: its own, then those of the root that it lacks. -/
def visibleNames (interpreter : Interpreter σ) : List Text :=
  let own := interpreter.currentFrame.bindings
  if interpreter.current == rootFrame then own.names
  else own.names ++ interpreter.globalNames.filter fun name => !own.contains name

/-- The code that is running: a catcher's, the outermost text, or a function's body. -/
def runningCode (interpreter : Interpreter σ) : Text :=
  let id := interpreter.callerFrame
  let frame := interpreter.frame id
  if frame.catching.isSome then interpreter.catcher
  else if id == rootFrame then interpreter.source
  else ((scriptOf (frame.function.bind interpreter.function?)).map Prod.snd).getD []

/-- The name of what is running: the command a catcher answers for, or a function. -/
def runningName (interpreter : Interpreter σ) : Text :=
  let id := interpreter.callerFrame
  let frame := interpreter.frame id
  match frame.catching with
  | some name => name
  | none =>
      if id == rootFrame then []
      else ((frame.function.bind interpreter.function?).map Function.name).getD []

/-- What can be asked about an interpreter. -/
inductive Topic where
  | version
  | parameters
  | body
  | functionCount
  | functions
  | names
  | globals
  | hasFunction
  | hasVariable
  | hasGlobal
  | error
  | dollar
  | code
  | name
  deriving Repr, DecidableEq

namespace Topic

/-- The word that asks for a topic. -/
def spelling : Topic → String
  | .version => "version"
  | .parameters => "args"
  | .body => "body"
  | .functionCount => "func-count"
  | .functions => "funcs"
  | .names => "vars"
  | .globals => "globals"
  | .hasFunction => "has-func"
  | .hasVariable => "has-var"
  | .hasGlobal => "has-global"
  | .error => "error"
  | .dollar => "dollar-prefix"
  | .code => "this"
  | .name => "name"

/-- All topics. -/
def all : List Topic :=
  [.version, .parameters, .body, .functionCount, .functions, .names, .globals, .hasFunction,
    .hasVariable, .hasGlobal, .error, .dollar, .code, .name]

/-- The topic that a word asks for. -/
def ofWord? (word : Text) : Option Topic :=
  all.find? fun topic => Text.ofString topic.spelling == word

/-- One when something is so, nothing otherwise. -/
def flag (truth : Bool) : Text :=
  if truth then Text.ofBool true else []

/-- What an interpreter answers on a topic, which may have a subject. -/
def answer (topic : Topic) (interpreter : Interpreter σ) (subject : Text) : Text :=
  match topic with
  | .version => Command.version
  | .parameters =>
      match scriptOf (interpreter.command? subject) with
      | some script => ListText.write script.1
      | none => []
  | .body =>
      match scriptOf (interpreter.command? subject) with
      | some script => script.2
      | none => []
  | .functionCount => Text.ofNat interpreter.commands.size
  | .functions => ListText.write interpreter.commands.names
  | .names => ListText.write (visibleNames interpreter)
  | .globals => ListText.write interpreter.globalNames
  | .hasFunction => flag (interpreter.commands.contains subject)
  | .hasVariable => flag (interpreter.visible? subject).isSome
  | .hasGlobal => flag ((interpreter.frame rootFrame).bindings.contains subject)
  | .error => (interpreter.error.map ScriptError.text).getD []
  | .dollar => interpreter.dollar
  | .code => runningCode interpreter
  | .name => runningName interpreter

end Topic

/-- Answer a question about the interpreter; a subject of the dollar topic becomes the expansion. -/
def reflect (arguments : List Text) : Eval σ Reply := do
  match arguments with
  | [] => return .badArguments
  | word :: rest =>
      match Topic.ofWord? word with
      | none => return .value []
      | some topic =>
          let interpreter ← interpreter
          match topic, rest with
          | .dollar, expansion :: _ =>
              change fun interpreter => { interpreter with dollar := expansion }
          | _, _ => pure ()
          return .value (topic.answer interpreter (rest.headD []))

/-- Define a function; its name is its value. -/
def define (name : Text) (parameters : List Text) (body : Text) : Eval σ Reply := do
  change fun interpreter => interpreter.define name (.script parameters body)
  return .value name

/-- A name for a function that is given none. -/
def anonymousName : Eval σ Text :=
  inspect fun interpreter => interpreter.unusedName (Text.ofString "anonymous-function")

/-- Define a function from a body, parameters and body, or name, parameters and body. -/
def defineFunction (run : Run σ) (arguments : List Text) : Eval σ Reply := do
  match arguments with
  | [] => return .badArguments
  | [body] => define (← anonymousName) [Text.ofString "args"] body
  | [parameters, body] =>
      let name ← anonymousName
      define name (← readList run parameters) body
  | name :: parameters :: body :: _ => define name (← readList run parameters) body

/-- Rename a command, or delete it when the new name is empty. -/
def rename (arguments : List Text) : Eval σ Reply := do
  match arguments with
  | old :: new :: _ =>
      match (← interpreter).rename old new with
      | .ok renamed =>
          change fun _ => renamed
          return .value old
      | .error reason => return .failed reason
  | _ => return .badArguments

/-- A name that is neither a command nor a visible variable. -/
def unusedName (arguments : List Text) : Eval σ Reply := do
  let part := arguments.headD (Text.ofString "unusedname")
  return .value (← inspect fun interpreter => interpreter.unusedName part)

/-- Install the code for unknown commands, or tell what it is. -/
def catcher (arguments : List Text) : Eval σ Reply := do
  match arguments with
  | [] => return .value (← inspect Interpreter.catcher)
  | code :: _ =>
      change fun interpreter => { interpreter with catcher := code }
      return .value []

end LittleScript.Command
