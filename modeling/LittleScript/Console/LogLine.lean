import LittleScript.Machine.World
import LittleScript.Text.Quoted

namespace LittleScript.LogEntry

/-!
# Log lines

A record of the debug log is one line of `key=value` items.  A text is quoted when it could not be
told apart from the rest of the line.
-/

/-- Whether a character calls for quotes around the text that holds it. -/
def callsForQuotes (rune : Rune) : Bool :=
  if rune.code < 0x80 then
    rune.code ≤ 0x20 || rune.code == 0x22 || rune.code == 0x3d
  else rune.code == Rune.replacement.code || !rune.isPrintable

/-- A text as a value of a log line. -/
def textValue (text : Text) : Text :=
  if text.isEmpty || (Rune.decode text).any callsForQuotes then text.quoted else text

/-- A value of a log line. -/
def valueText : LogValue → Text
  | .number value => Text.ofInt value
  | .flag value => Text.ofString (if value then "true" else "false")
  | .text value => textValue value

/-- The line of a record. -/
def line (entry : LogEntry) : Text :=
  let head := Text.ofString "level=DEBUG msg=" ++ textValue entry.message
  let items := entry.fields.flatMap fun (key, value) =>
    Byte.space :: key ++ Byte.equal :: valueText value
  head ++ items ++ [Byte.newline]

end LittleScript.LogEntry
