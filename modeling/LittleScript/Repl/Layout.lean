import LittleScript.Text.Columns

namespace LittleScript.Repl.Layout

/-!
# Laying out blocks of text

A block is a text of one or more lines.  Blocks of several lines are made rectangular by padding
every line to the longest, and a block can be framed.
-/

/-- Spaces. -/
def spaces (count : Nat) : Text :=
  List.replicate count Byte.space

/-- Replace tabs by four spaces and write every line break as a newline. -/
def normalize (text : Text) : Text :=
  Text.replaceAll [Byte.carriageReturn, Byte.newline] [Byte.newline]
    (Text.replaceAll [Byte.tab] (spaces 4) text)

/-- The columns of the longest line. -/
def widest (lines : List Text) : Nat :=
  lines.foldl (fun widest line => max widest line.columns) 0

/-- Pad lines with spaces to a number of columns. -/
def padLines (width : Nat) (lines : List Text) : List Text :=
  lines.map fun line => line ++ spaces (width - line.columns)

/-- Lines as one text. -/
def unlines (lines : List Text) : Text :=
  Text.joinWith [Byte.newline] lines

/-- A block with every line padded to the longest. -/
def rectangle (text : Text) : Text :=
  let lines := (normalize text).lines
  unlines (padLines (widest lines) lines)

/-- Indent every line of a block by four spaces. -/
def indent (text : Text) : Text :=
  spaces 4 ++ Text.replaceAll [Byte.newline] (Byte.newline :: spaces 4) text

/-- A text repeated. -/
def repeated (count : Nat) (text : Text) : Text :=
  (List.replicate count text).flatten

/-- A horizontal line. -/
def rule (width : Nat) : Text :=
  repeated width (Text.ofString "─")

/--
A block in a frame with round corners, one space away from it on both sides.  The lines are made
equally long with these spaces, and the frame is as wide as they then show.
-/
def framed (text : Text) : Text :=
  let spaced := (normalize text).lines.map fun line => spaces 1 ++ line ++ spaces 1
  let body := padLines (widest spaced) spaced
  let edge := rule (widest body)
  let sides := body.map fun line => Text.ofString "│" ++ line ++ Text.ofString "│"
  let top := Text.ofString "╭" ++ edge ++ Text.ofString "╮"
  let bottom := Text.ofString "╰" ++ edge ++ Text.ofString "╯"
  unlines (top :: sides ++ [bottom])

end LittleScript.Repl.Layout
