import LittleScript.Text

namespace LittleScript.Source

/-!
# Positions in source text

Offsets count bytes from zero, lines and columns count from one.  A code frame shows the line of
an error with a caret below the column.
-/

/-- A line and a column, both from one; both zero when there is no position. -/
structure Place where
  line : Nat
  column : Nat
  deriving Repr, DecidableEq

/-- Walk over the bytes before an offset, counting lines and columns. -/
def walk : Text → Nat → Place → Place
  | _, 0, place => place
  | [], _ + 1, place => place
  | byte :: rest, offset + 1, place =>
      if byte == Byte.newline then walk rest offset ⟨place.line + 1, 1⟩
      else walk rest offset ⟨place.line, place.column + 1⟩

/-- The place of an offset; an offset past the end counts as the end. -/
def place (source : Text) (offset : Int) : Place :=
  if source.isEmpty || offset < 0 then ⟨0, 0⟩
  else walk source offset.toNat ⟨1, 1⟩

/-- A text without the carriage returns at its end. -/
def dropReturns (line : Text) : Text :=
  (line.reverse.dropWhile (· == Byte.carriageReturn)).reverse

/-- A run of spaces. -/
def spaces (count : Nat) : Text :=
  List.replicate count Byte.space

/-- The line of a place with a caret below its column; empty when there is no place. -/
def codeFrame (source : Text) (place : Place) : Text :=
  if source.isEmpty || place.line = 0 then []
  else
    match (Text.lines source)[place.line - 1]? with
    | none => []
    | some line =>
        let shown := dropReturns line
        let column := min (max place.column 1) (shown.length + 1)
        let label := Text.ofNat place.line
        Text.ofString "  --> line " ++ label ++ Text.ofString ", column " ++ Text.ofNat column ++
          Text.ofString "\n " ++ label ++ Text.ofString " | " ++ shown ++
          Text.ofString "\n " ++ spaces label.length ++ Text.ofString " | " ++
          spaces (column - 1) ++ Text.ofString "^"

end LittleScript.Source
