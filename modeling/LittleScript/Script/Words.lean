import LittleScript.ListText
import LittleScript.Machine.Evaluation
import LittleScript.Source.Blank

namespace LittleScript

/-!
# Reading words

A word is a sequence of directly adjacent parts: bare bytes, literal text in braces, the result of
a command in brackets, the value of a variable behind a dollar, and quoted text, in which brackets
and dollars are replaced as well.  Reading and evaluating alternate, and both stop at the first
error.

Every round of a loop here shortens the text that is left, so the bounds, which exceed its length,
are never used up.
-/

open Source (Cursor Flaw)

/-- How a text is read: whether it is the outermost one, and whether separators count as blanks. -/
structure Reader where
  outermost : Bool
  acrossLines : Bool
  deriving Repr, DecidableEq

/-- The byte that an escape stands for. -/
def unescape (byte : UInt8) : UInt8 :=
  if byte == 0x62 then 0x08
  else if byte == 0x74 then Byte.tab
  else if byte == 0x6e then Byte.newline
  else if byte == 0x76 then Byte.verticalTab
  else if byte == 0x66 then Byte.formFeed
  else if byte == 0x72 then Byte.carriageReturn
  else if byte == Byte.zero then 0x00
  else if byte == 0x61 then 0x07
  else if byte == 0x63 then Byte.closeBrace
  else if byte == 0x6f then Byte.openBrace
  else byte

/--
Read quoted bytes up to a dollar, an opening bracket or the closing quote.  A backslash that ends
the text takes the cursor one byte past its end.  `literal` is in reverse.
-/
def quotedRun (quote : UInt8) : Text → Nat → Text → Text × Cursor
  | [], offset, literal => (literal, ⟨[], offset⟩)
  | Byte.backslash :: [], offset, literal => (literal, ⟨[], offset + 2⟩)
  | byte :: rest, offset, literal =>
      if byte == Byte.dollar || byte == Byte.openBracket then (literal, ⟨byte :: rest, offset⟩)
      else if byte == Byte.backslash then
        match rest with
        | escaped :: after => quotedRun quote after (offset + 2) (unescape escaped :: literal)
        | [] => (literal, ⟨[], offset + 2⟩)
      else if byte == quote then (literal, ⟨byte :: rest, offset⟩)
      else quotedRun quote rest (offset + 1) (byte :: literal)

/-- Whether a byte belongs to a bare run. -/
def isBare (byte : UInt8) : Bool :=
  !Byte.isSpace byte && !Byte.isSpecial byte

namespace Eval

variable {σ : Type}

/-- Report a flaw of the text that is being read. -/
def malformed (reader : Reader) (offset : Nat) (flaw : Flaw) : Eval σ Unit :=
  if reader.outermost then raiseAt offset (.malformed flaw) else raise (.malformed flaw)

/-- Skip blanks, reporting a comment that never ends. -/
def skipBlanks (reader : Reader) (cursor : Cursor) : Eval σ Cursor := do
  let blanks := Source.skipBlanks reader.acrossLines cursor
  match blanks.openComment with
  | some start => malformed reader start .openComment
  | none => pure ()
  return blanks.cursor

/-- The value of a variable part: the dollar expansion with the name is run as code. -/
def dollarPart (run : Run σ) (name : Eval σ (Text × Cursor)) : Eval σ (Text × Cursor) := do
  let (word, after) ← name
  let expansion ← inspect Interpreter.dollar
  let value ← run (expansion ++ ListText.write [word]) false
  return (value, after)

/-- The literal text of a brace part; the cursor is behind the opening brace. -/
def bracePart (reader : Reader) (cursor : Cursor) : Eval σ (Text × Cursor) := do
  match Source.bracesEnd? cursor.rest with
  | some (inside, after) => return (inside, ⟨after, cursor.offset + inside.length + 1⟩)
  | none =>
      malformed reader (cursor.offset - 1) .openBrace
      return (cursor.rest, ⟨[], cursor.offset + cursor.rest.length⟩)

/-- The result of a command part; the cursor is behind the opening bracket. -/
def bracketPart (reader : Reader) (run : Run σ) (cursor : Cursor) : Eval σ (Text × Cursor) := do
  match Source.bracketsEnd? cursor.rest with
  | some (inside, after) =>
      let value ← run inside false
      return (value, ⟨after, cursor.offset + inside.length + 1⟩)
  | none =>
      malformed reader (cursor.offset - 1) .openBracket
      return ([], ⟨[], cursor.offset + cursor.rest.length⟩)

/--
The text of a quoted part.  `name` reads what follows a dollar; `start` is where the part began;
`done` is in reverse.  An error inside leaves the cursor where the reading stopped.
-/
def quotedPart (reader : Reader) (run : Run σ) (name : Cursor → Eval σ (Text × Cursor))
    (quote : UInt8) (start : Nat) : Nat → Cursor → Text → Eval σ (Text × Cursor)
  | 0, cursor, done => return (done.reverse, cursor)
  | bound + 1, cursor, done => do
      let (literal, stop) := quotedRun quote cursor.rest cursor.offset done
      match stop.rest with
      | [] =>
          malformed reader start .openQuote
          return (literal.reverse, stop)
      | byte :: rest =>
          let next : Cursor := ⟨rest, stop.offset + 1⟩
          if byte == Byte.dollar || byte == Byte.openBracket then
            let (value, after) ←
              if byte == Byte.dollar then dollarPart run (name next)
              else bracketPart reader run next
            let grown := value.reverse ++ literal
            if ← hasError then return (grown.reverse, after)
            else quotedPart reader run name quote start bound after grown
          else return (literal.reverse, next)

/-- Read one part of a word; `bound` also limits how deeply dollars and quotes are nested. -/
def part (reader : Reader) (run : Run σ) : Nat → Cursor → Eval σ (Text × Cursor)
  | 0, cursor => return ([], cursor)
  | bound + 1, cursor => do
      let cursor ← skipBlanks reader cursor
      match cursor.rest with
      | [] => return ([], cursor)
      | byte :: rest =>
          let next : Cursor := ⟨rest, cursor.offset + 1⟩
          if byte == Byte.dollar then dollarPart run (part reader run bound next)
          else if byte == Byte.openBrace then bracePart reader next
          else if byte == Byte.openBracket then bracketPart reader run next
          else if byte == Byte.doubleQuote || byte == Byte.singleQuote then
            quotedPart reader run (part reader run bound) byte cursor.offset (bound + 1) next []
          else
            let bare := cursor.rest.takeWhile isBare
            return (bare, ⟨cursor.rest.dropWhile isBare, cursor.offset + bare.length⟩)

/--
Read the parts of one word.  There is no word where a part takes nothing from the text, which
happens at a closing byte that nothing opened.  `done` is in reverse.
-/
def word (reader : Reader) (run : Run σ) (depth : Nat) :
    Nat → Cursor → Text → Eval σ (Option (Text × Cursor))
  | 0, _, _ => return none
  | bound + 1, cursor, done => do
      let (value, after) ← part reader run depth cursor
      if after.offset == cursor.offset then
        malformed reader cursor.offset (.strayCloser (cursor.rest.headD 0))
        return none
      let grown := value.reverse ++ done
      if after.isDone || after.isOn Byte.isSpace || after.isOn Byte.isSeparator || (← hasError) then
        return some (grown.reverse, after)
      else word reader run depth bound after grown

/-- Read words up to a separator, the end or an error; `done` is in reverse. -/
def wordsFrom (reader : Reader) (run : Run σ) (depth : Nat) :
    Nat → Cursor → List Text → Eval σ (Option (List Text × Cursor))
  | 0, cursor, done => return some (done.reverse, cursor)
  | bound + 1, cursor, done => do
      let atEnd := cursor.isDone || (!reader.acrossLines && cursor.isOn Byte.isSeparator)
      if atEnd || (← hasError) then return some (done.reverse, cursor)
      match ← word reader run depth depth cursor [] with
      | none => return none
      | some (value, after) =>
          let after ← skipBlanks reader after
          wordsFrom reader run depth bound after (value :: done)

/-- Read the words of one command, or of a whole text across lines; `bound` exceeds its length. -/
def words (reader : Reader) (run : Run σ) (bound : Nat) (cursor : Cursor) :
    Eval σ (Option (List Text × Cursor)) := do
  wordsFrom reader run bound bound (← skipBlanks reader cursor) []

/-- Read a text as a list, replacing dollars and brackets in it; separators count as blanks. -/
def readList (run : Run σ) (text : Text) : Eval σ (List Text) := do
  match ← words ⟨false, true⟩ run (text.length + 1) (.start text) with
  | some (items, _) => return items
  | none => return []

/-- Read a text as a list and join the elements with single spaces. -/
def readJoined (run : Run σ) (text : Text) : Eval σ Text := do
  return Text.joinSpaced (← readList run text)

/-- Evaluate an arithmetic expression; there is no value when an error is pending afterwards. -/
def expression (run : Run σ) (code : Text) : Eval σ (Option Text) := do
  let text ← readJoined run code
  if ← hasError then return none
  match Expression.evaluate text with
  | .ok number => return some number.text
  | .error fault =>
      raise (.arithmetic fault)
      return none

end Eval

end LittleScript
