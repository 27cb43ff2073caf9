import LittleScript.Repl.InputField
import LittleScript.Script.Host

namespace LittleScript.Repl

/-!
# Conversations on a full screen

A screen shows a transcript of what was entered and what came of it, above an input field.  Keys
walk through the commands entered before, complete words and open panels; a line that starts with a
colon is a command to the session itself, and any other line is evaluated.
-/

/-- One entry of the transcript. -/
structure TranscriptEntry where
  input : Text := []
  output : Text
  isError : Bool := false
  deriving Repr, DecidableEq

/-- The state of a conversation on a screen. -/
structure Screen where
  field : InputField := {}
  machine : Machine Unit
  transcript : List TranscriptEntry := []
  /-- The commands entered, in order. -/
  commands : List Text := []
  /-- The place in the commands that the field shows, while walking through them. -/
  place : Option Nat := none
  width : Int := 0
  height : Int := 0
  showsHelp : Bool := false
  showsGlobals : Bool := false
  quitting : Bool := false
  /-- Whether the size of the window is known. -/
  initialized : Bool := false

/-- The keys with a meaning of their own. -/
inductive Key where
  | enter
  | up
  | down
  | tab
  | interrupt
  | endOfInput
  | clear
  | globals
  | help
  deriving Repr, DecidableEq

/-- The names of the keys. -/
def Key.names : List (Text × Key) :=
  [("enter", .enter), ("up", .up), ("down", .down), ("tab", .tab), ("ctrl+c", .interrupt),
    ("ctrl+d", .endOfInput), ("ctrl+l", .clear), ("ctrl+v", .globals), ("ctrl+k", .help)].map
    fun (name, key) => (Text.ofString name, key)

/-- What reaches a screen. -/
inductive Message where
  | key (key : Key)
  /-- Characters that came in at once. -/
  | typed (text : Text)
  | resized (width height : Int)
  deriving Repr, DecidableEq

namespace Screen

/-- A fresh conversation. -/
def start (files : FileSystem) : Screen :=
  { machine := .start () {} files }

/-- Add an entry to the transcript. -/
def add (screen : Screen) (entry : TranscriptEntry) : Screen :=
  { screen with transcript := screen.transcript ++ [entry] }

/-- Replace the text of the input field and put the cursor behind it. -/
def setInput (screen : Screen) (text : Text) : Screen :=
  { screen with field := (screen.field.setText text).moveToEnd }

/-- Printed text before a result or an error, whichever of them there are. -/
def joinOutput (printed result : Text) : Text :=
  if printed.isEmpty then result
  else if result.isEmpty then printed
  else printed ++ Byte.newline :: result

/-- What an evaluation shows: the printed text and then the result or the error. -/
def present (input : Text) (printed : Text) : Outcome Eval.Evaluated → TranscriptEntry
  | .finished ⟨_, some failure⟩ =>
      let output :=
        if printed.isEmpty then failure.describe
        else printed ++ Byte.newline :: failure.describe
      ⟨input, output, true⟩
  | .finished ⟨value, none⟩ => ⟨input, joinOutput printed value, false⟩
  | .stopped _ => ⟨input, printed, true⟩

/-- Evaluate a line and show what comes of it. -/
def evaluate (screen : Screen) (input : Text) : Screen :=
  let (outcome, after) := screen.machine.evaluate input
  let printed := Text.dropEnding [Byte.newline] after.world.output
  let machine := { after with world := { after.world with written := [] } }
  { screen with machine }.add (present input printed outcome)

/-- The commands to the session itself. -/
inductive SessionCommand where
  | help
  | clear
  | globals
  | reset
  | quit
  deriving Repr, DecidableEq

/-- The words for the commands to the session. -/
def SessionCommand.words : List (Text × SessionCommand) :=
  [(":help", .help), (":h", .help), (":clear", .clear), (":c", .clear), (":vars", .globals),
    (":v", .globals), (":reset", .reset), (":r", .reset), (":quit", .quit), (":q", .quit)].map
    fun (word, command) => (Text.ofString word, command)

/-- A conversation with a fresh interpreter. -/
def reset (screen : Screen) (input : Text) : Screen :=
  { screen with machine := .start () {} screen.machine.world.files }.add
    { input, output := Text.ofString "started a fresh interpreter" }

/-- Carry out a command to the session. -/
def command (screen : Screen) (input : Text) : Screen :=
  let word := (Text.fields input).headD []
  match SessionCommand.words.lookup word with
  | some .help => { screen with showsHelp := !screen.showsHelp }
  | some .clear => { screen with transcript := [] }
  | some .globals => { screen with showsGlobals := !screen.showsGlobals }
  | some .reset => screen.reset input
  | some .quit => { screen with quitting := true }
  | none =>
      let output := word ++ Text.ofString " is not a session command, try :help"
      screen.add { input, output, isError := true }

/-- Leave the walk through the commands with an empty field. -/
def clearInput (screen : Screen) : Screen :=
  { screen with field := screen.field.setText [], place := none }

/-- Whether a trimmed line is a command to the session. -/
def isCommand (input : Text) : Bool :=
  input.head? == some Byte.colon

/-- Whether a line asks to leave the session. -/
def asksToQuit (input : Text) : Bool :=
  isCommand input && SessionCommand.words.lookup ((Text.fields input).headD []) == some .quit

/-- Enter the line in the field; the result tells whether to leave. -/
def enter (screen : Screen) : Screen × Bool :=
  let input := Text.strip screen.field.text
  if input.isEmpty then (screen, false)
  else if isCommand input then ((screen.command input).clearInput, asksToQuit input)
  else
    let after := screen.evaluate input
    ({ after with commands := after.commands ++ [input] }.clearInput, false)

/-- Show the command at a place. -/
def showCommand (screen : Screen) (place : Nat) : Screen :=
  { screen.setInput (screen.commands.getD place []) with place := some place }

/-- Show the command before the one that shows. -/
def walkUp (screen : Screen) : Screen :=
  if screen.commands.isEmpty then screen
  else
    match screen.place with
    | none => screen.showCommand (screen.commands.length - 1)
    | some place => screen.showCommand (place - 1)

/-- Show the command behind the one that shows; behind the last one the field is empty. -/
def walkDown (screen : Screen) : Screen :=
  match screen.place with
  | none => screen
  | some place =>
      if place + 1 < screen.commands.length then screen.showCommand (place + 1)
      else screen.clearInput

/-- The completions of a word: global variables behind a dollar, else commands. -/
def completions (screen : Screen) (word : Text) : List Text :=
  let interpreter := screen.machine.interpreter
  match word with
  | Byte.dollar :: part =>
      (interpreter.globalNames.filter part.isPrefixOf).map (Byte.dollar :: ·)
  | _ => interpreter.commands.names.filter word.isPrefixOf

/-- Complete the last word of the field, or list its completions when there are several. -/
def complete (screen : Screen) : Screen :=
  let input := screen.field.text
  match (Text.fields input).getLast? with
  | none => screen
  | some word =>
      if input.getLast? == some Byte.space then screen
      else
        match screen.completions word with
        | [] => screen
        | [completion] => screen.setInput (Text.dropEnding word input ++ completion)
        | several =>
            let listed := Text.joinWith (Text.ofString ", ") (Text.sort several)
            screen.add { output := Text.ofString "Completions: " ++ listed }

/-- React to a key; the result tells whether to leave. -/
def press (screen : Screen) : Key → Screen × Bool
  | .interrupt | .endOfInput => ({ screen with quitting := true }, true)
  | .clear => ({ screen with transcript := [] }, false)
  | .globals => ({ screen with showsGlobals := !screen.showsGlobals }, false)
  | .help => ({ screen with showsHelp := !screen.showsHelp }, false)
  | .up => (screen.walkUp, false)
  | .down => (screen.walkDown, false)
  | .tab => (screen.complete, false)
  | .enter => screen.enter

/-- The columns that the field leaves to the rest of its line. -/
def fieldMargin : Int := 10

/-- Take the size of the window. -/
def resize (screen : Screen) (width height : Int) : Screen :=
  { screen with
    width
    height
    field := { screen.field with width := width - fieldMargin }
    initialized := true }

/--
React to a message; the result tells whether to leave.  Characters that spell the name of a key
count as that key, whether the screen or the field knows it.
-/
def update (screen : Screen) : Message → Screen × Bool
  | .resized width height => (screen.resize width height, false)
  | .key key => screen.press key
  | .typed text =>
      match Key.names.lookup text with
      | some key => screen.press key
      | none =>
          let field :=
            match Edit.names.lookup text with
            | some edit => screen.field.edit edit
            | none => screen.field.type text
          ({ screen with field }, false)

end Screen

end LittleScript.Repl
