import LittleScript.Repl.InputLine
import LittleScript.Text.Rune

namespace LittleScript.Repl

/-!
# Remembered input

What a user entered is remembered up to a limit, and kept in a file with one entry a line.
-/

/-- What was entered, the latest first. -/
structure History where
  latestFirst : List Text := []
  deriving Repr, DecidableEq

namespace History

/-- How many entries are remembered. -/
def limit : Nat := 1000

/-- Remember an entry, at the cost of the oldest one when the limit is reached. -/
def add (history : History) (entry : Text) : History :=
  ⟨(entry :: history.latestFirst).take limit⟩

/-- Remember an entry unless it repeats the one before. -/
def remember (history : History) (entry : Text) : History :=
  if history.latestFirst.head? == some entry then history else history.add entry

/-- Take up lines until one is too long or no valid UTF-8. -/
def addLines (history : History) : List InputLine → History
  | [] => history
  | line :: rest =>
      if line.isPiece || !Rune.isValidText line.text then history
      else (history.add line.text).addLines rest

/-- The history that a file holds. -/
def ofFile (content : Text) : History :=
  ({} : History).addLines (inputLines content)

/-- The content of the file that holds a history. -/
def toFile (history : History) : Text :=
  history.latestFirst.reverse.flatMap fun entry => entry ++ [Byte.newline]

end History

end LittleScript.Repl
