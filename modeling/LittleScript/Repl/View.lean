import LittleScript.Repl.Layout
import LittleScript.Repl.Screen

namespace LittleScript.Repl.Screen

/-!
# What a screen shows

From top to bottom: a header, as much of the transcript as fits, the panels that are open, the
input field and the hints for keys.  There is no view when the panels leave less than nothing to
the transcript, or the window has no room for an empty field.
-/

open Layout

/-- A key or form and what it is for. -/
structure HelpRow where
  label : String
  description : String
  deriving Repr, DecidableEq

/-- The help on the session. -/
def sessionRows : List HelpRow :=
  [⟨"↑/↓", "walk command history"⟩,
    ⟨"tab", "complete a command, or a global after $"⟩,
    ⟨":vars", "show or hide globals"⟩,
    ⟨":clear", "drop the transcript"⟩,
    ⟨":reset", "discard all commands and variables"⟩,
    ⟨":quit", "leave"⟩]

/-- The help on the language. -/
def languageRows : List HelpRow :=
  [⟨"\x7b...\x7d", "literal text, evaluated later"⟩,
    ⟨"[...]", "replaced by the command's result"⟩,
    ⟨"$name", "value of a variable"⟩]

/-- The hints below the input field. -/
def hints : List HelpRow :=
  [⟨"ctrl+k", "help"⟩, ⟨"ctrl+v", "globals"⟩, ⟨"ctrl+l", "clear transcript"⟩, ⟨"ctrl+c", "quit"⟩]

/-- The number of characters to which labels are padded. -/
def labelWidth : Nat := 7

/-- The line of a help row. -/
def HelpRow.line (row : HelpRow) : Text :=
  let padding := spaces (labelWidth - row.label.length)
  spaces 2 ++ Text.ofString row.label ++ padding ++ Byte.space :: Text.ofString row.description

/-- The panel with the help. -/
def helpPanel : Text :=
  framed (unlines
    (Text.ofString "Session" :: sessionRows.map HelpRow.line ++
      [] :: Text.ofString "Syntax" :: languageRows.map HelpRow.line))

/-- How many bytes of a value the panel shows. -/
def valueLimit : Nat := 48

/-- A value cut short for the panel. -/
def cutValue (value : Text) : Text :=
  if valueLimit < value.length then value.take valueLimit ++ Text.ofString "..." else value

/-- The line of a global variable. -/
def globalLine (name value : Text) : Text :=
  spaces 2 ++ rectangle name ++ Byte.space :: Byte.openBrace :: cutValue value ++
    [Byte.closeBrace]

/-- The global variables with their values. -/
def globals (screen : Screen) : List (Text × Text) :=
  (screen.machine.interpreter.frame rootFrame).bindings.entries.map fun (name, held) =>
    (name, held.value)

/-- The panel with the global variables. -/
def globalsPanel (globals : List (Text × Text)) : Text :=
  if globals.isEmpty then framed (Text.ofString "no globals set")
  else
    framed (unlines
      (Text.ofString "Globals" :: globals.map fun (name, value) => globalLine name value))

/-- An entry of the transcript with the empty line below it. -/
def renderEntry (entry : TranscriptEntry) : Text :=
  let input :=
    if entry.input.isEmpty then []
    else Text.ofString "  # " ++ entry.input ++ [Byte.newline]
  let output :=
    if entry.isError || !entry.output.isEmpty then
      indent (rectangle entry.output) ++ [Byte.newline]
    else []
  input ++ output ++ [Byte.newline]

/-- The latest entries for a number of rows, one row an entry; rows cannot be fewer than none. -/
def latest? (transcript : List TranscriptEntry) (rows : Int) : Option (List TranscriptEntry) :=
  if rows < 0 then none
  else some (transcript.drop (transcript.length - rows.toNat))

/-- The rows that the open panels take. -/
def panelRows (screen : Screen) : Nat :=
  (if screen.showsHelp then sessionRows.length + languageRows.length + 5 else 0) +
    (if screen.showsGlobals then screen.globals.length + 3 else 0)

/-- The rows that are left to the transcript. -/
def transcriptRows (screen : Screen) : Int :=
  screen.height - 8 - screen.panelRows

/-- The header: what is known, and a line across the screen. -/
def header (screen : Screen) : Text :=
  let commandCount := screen.machine.interpreter.commands.size
  Text.ofString " lil v" ++ Command.version ++ spaces 2 ++ Text.ofNat commandCount ++
    Text.ofString " commands, " ++ Text.ofNat screen.globals.length ++
    Text.ofString " globals\n" ++ rule (min (screen.width - 2) 60).toNat ++
    Text.ofString "\n\n"

/-- The hints in one line. -/
def hintLine : Text :=
  Text.joinWith (spaces 2)
    (hints.map fun hint => Text.ofString (hint.label ++ " " ++ hint.description))

/-- The panels that are open, and the lines below them. -/
def footer (screen : Screen) : Text :=
  (if screen.showsGlobals then globalsPanel screen.globals ++ [Byte.newline] else []) ++
    (if screen.showsHelp then helpPanel ++ [Byte.newline] else []) ++
    Text.ofString "lil> " ++ screen.field.render ++ Text.ofString "\n\n" ++ hintLine

/-- What the screen shows. -/
def view? (screen : Screen) : Option Text :=
  if !screen.initialized then some (Text.ofString "Loading...")
  else if screen.quitting then some (rectangle (Text.ofString "bye\n"))
  else if !screen.field.hasRoom then none
  else
    (latest? screen.transcript screen.transcriptRows).map fun entries =>
      screen.header ++ entries.flatMap renderEntry ++ screen.footer

end LittleScript.Repl.Screen
