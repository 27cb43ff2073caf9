import LittleScript.Source.Blank
import LittleScript.Source.Flaw
import LittleScript.Source.Position

namespace LittleScript.Source

/-!
# Checking a script without running it

The checker looks for unbalanced braces, brackets, quotes and block comments.  The text inside
brackets is checked as a script of its own, also inside quotes.
-/

/-- A flaw with the offset of the construct it concerns. -/
structure SyntaxError where
  flaw : Flaw
  offset : Nat
  deriving Repr, DecidableEq

/-- Where the checker stands: between and inside words, or inside a quoted word. -/
inductive Region where
  | words (atWordStart : Bool)
  | quoted (quote : UInt8) (start : Nat)
  deriving Repr, DecidableEq

/-- Two hashes in a row, which end a block comment for the checker. -/
def blockEnd : Text := [Byte.hash, Byte.hash]

/--
Scan a region from an offset.  Every step shortens the text, so a bound above its length is never
used up.
-/
def scan : Nat → Region → Nat → Text → Option SyntaxError
  | 0, _, _, _ => none
  | _ + 1, .words _, _, [] => none
  | _ + 1, .quoted _ start, _, [] => some ⟨.openQuote, start⟩
  | bound + 1, .words atWordStart, offset, byte :: rest =>
      if byte == Byte.hash && atWordStart then
        if opensBlock (byte :: rest) then
          match Text.indexOf? blockEnd rest.tail with
          | none => some ⟨.openComment, offset⟩
          | some length =>
              scan bound (.words true) (offset + length + 4) (rest.tail.drop (length + 2))
        else
          let comment := rest.takeWhile fun next => !Byte.isSeparator next
          scan bound (.words true) (offset + 1 + comment.length) (rest.drop comment.length)
      else if byte == Byte.backslash && atWordStart then
        match rest with
        | [] => some ⟨.danglingContinuation, offset⟩
        | next :: _ =>
            if isLineBreak next then
              let breaks := rest.takeWhile isLineBreak
              scan bound (.words true) (offset + 1 + breaks.length) (rest.drop breaks.length)
            else scan bound (.words false) (offset + 1) rest
      else if byte == Byte.openBrace then
        match bracesEnd? rest with
        | none => some ⟨.openBrace, offset⟩
        | some (inside, after) =>
            scan bound (.words false) (offset + inside.length + 2) after
      else if byte == Byte.openBracket then
        match bracketsEnd? rest with
        | none => some ⟨.openBracket, offset⟩
        | some (inside, after) =>
            match scan bound (.words true) (offset + 1) inside with
            | some found => some found
            | none => scan bound (.words false) (offset + inside.length + 2) after
      else if byte == Byte.doubleQuote || byte == Byte.singleQuote then
        scan bound (.quoted byte offset) (offset + 1) rest
      else if byte == Byte.closeBrace || byte == Byte.closeBracket then
        some ⟨.strayCloser byte, offset⟩
      else
        scan bound (.words (Byte.isSpace byte || Byte.isSeparator byte)) (offset + 1) rest
  | bound + 1, .quoted quote start, offset, byte :: rest =>
      if byte == Byte.backslash then
        scan bound (.quoted quote start) (offset + 2) rest.tail
      else if byte == quote then scan bound (.words false) (offset + 1) rest
      else if byte == Byte.openBracket then
        match bracketsEnd? rest with
        | none => some ⟨.openBracket, offset⟩
        | some (inside, after) =>
            match scan bound (.words true) (offset + 1) inside with
            | some found => some found
            | none => scan bound (.quoted quote start) (offset + inside.length + 2) after
      else if byte == Byte.dollar && rest.head? == some Byte.openBrace then
        match bracesEnd? rest.tail with
        | none => some ⟨.openBrace, offset + 1⟩
        | some (inside, after) =>
            scan bound (.quoted quote start) (offset + inside.length + 3) after
      else scan bound (.quoted quote start) (offset + 1) rest

/-- The first flaw of a script, if it has one. -/
def check (code : Text) : Option SyntaxError :=
  scan (code.length + 1) (.words true) 0 code

/-- Whether a script ends inside an open construct, so that more text could complete it. -/
def isIncomplete (code : Text) : Bool :=
  match check code with
  | some found => found.flaw.isIncomplete
  | none => false

namespace SyntaxError

/-- The line and column of the flaw in the script it was found in. -/
def place (error : SyntaxError) (code : Text) : Place :=
  Source.place code error.offset

/-- The full wording: line, column and flaw. -/
def describe (error : SyntaxError) (code : Text) : Text :=
  Text.ofNat (error.place code).line ++ [Byte.colon] ++ Text.ofNat (error.place code).column ++
    Text.ofString ": " ++ error.flaw.message

end SyntaxError

end LittleScript.Source
