import LittleScript.Text

namespace LittleScript.Repl

/-!
# Input lines

Input is read through a window of fixed size.  A line ends with a newline, before which one
carriage return is dropped.  A line that does not fit into the window comes in several pieces; a
carriage return at the end of such a piece is left for the next one.
-/

/-- The size of the window. -/
def windowSize : Nat := 4096

/-- A line, or a piece of a line that does not fit into the window. -/
structure InputLine where
  text : Text
  isPiece : Bool
  deriving Repr, DecidableEq

/-- The first line of a text that is not empty, and what follows it. -/
def firstInputLine (text : Text) : InputLine × Text :=
  let window := text.take windowSize
  let line := window.takeWhile (· != Byte.newline)
  if line.length < window.length then
    (⟨Text.dropEnding [Byte.carriageReturn] line, false⟩, text.drop (line.length + 1))
  else if window.length < windowSize then (⟨line, false⟩, [])
  else
    let piece := Text.dropEnding [Byte.carriageReturn] line
    (⟨piece, true⟩, text.drop piece.length)

/-- The lines of a text; every line takes at least one byte. -/
def inputLinesFrom : Nat → Text → List InputLine
  | 0, _ => []
  | bound + 1, text =>
      if text.isEmpty then []
      else
        let (line, rest) := firstInputLine text
        line :: inputLinesFrom bound rest

/-- The lines of a text. -/
def inputLines (text : Text) : List InputLine :=
  inputLinesFrom text.length text

end LittleScript.Repl
