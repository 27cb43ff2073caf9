import LittleScript.Text

namespace LittleScript.ListText

/-!
# Lists as text

A list of texts is written as one text whose words are its elements.  An element that would not
survive as one word is braced; a brace inside it is written as a quoted escape between two braced
stretches.
-/

/-- Whether an element has to be braced to stay one word. -/
def needsBraces (word : Text) : Bool :=
  word.isEmpty || word.any fun byte => Byte.isPunctuation byte || Byte.isSpace byte

/-- The quoted escape of a brace, closing and reopening the braces around it. -/
def guardByte (byte : UInt8) : Text :=
  if byte == Byte.openBrace then
    [Byte.closeBrace, Byte.doubleQuote, Byte.backslash, 0x6f, Byte.doubleQuote, Byte.openBrace]
  else if byte == Byte.closeBrace then
    [Byte.closeBrace, Byte.doubleQuote, Byte.backslash, 0x63, Byte.doubleQuote, Byte.openBrace]
  else [byte]

/-- One element as it is written in a list. -/
def writeWord (word : Text) : Text :=
  if needsBraces word then Byte.openBrace :: (word.flatMap guardByte ++ [Byte.closeBrace])
  else word

/-- The text of a list, each element one word. -/
def write (words : List Text) : Text :=
  Text.joinSpaced (words.map writeWord)

end LittleScript.ListText
