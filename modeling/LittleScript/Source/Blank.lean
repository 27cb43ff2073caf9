import LittleScript.Text

namespace LittleScript.Source

/-!
# Blanks, comments and line continuations

What may stand between words: spaces, comments to the end of a line, block comments between double
hashes, and backslashes that join lines.  Separators end the blank stretch unless the reader looks
across lines.
-/

/-- Two hashes and no third: the mark that opens a block comment, and that ends one. -/
def opensBlock : Text → Bool
  | Byte.hash :: Byte.hash :: Byte.hash :: _ => false
  | Byte.hash :: Byte.hash :: _ => true
  | _ => false

/-- A byte that a line continuation swallows. -/
def isLineBreak (byte : UInt8) : Bool :=
  byte == Byte.newline || byte == Byte.carriageReturn

/-- A place in a text: what is still to be read and how much has been read. -/
structure Cursor where
  rest : Text
  offset : Nat
  deriving Repr, DecidableEq

namespace Cursor

/-- The beginning of a text. -/
def start (text : Text) : Cursor := ⟨text, 0⟩

/-- Whether nothing is left to read. -/
def isDone (cursor : Cursor) : Bool := cursor.rest.isEmpty

/-- Whether the cursor stands on a byte that a test accepts. -/
def isOn (cursor : Cursor) (accept : UInt8 → Bool) : Bool :=
  match cursor.rest with
  | byte :: _ => accept byte
  | [] => false

end Cursor

/-- What the blank stretch has come to. -/
inductive BlankState where
  | plain
  /-- Behind a line continuation, where line breaks are blanks. -/
  | joined
  | comment
  | block (start : Nat)
  deriving Repr, DecidableEq

/-- Where a blank stretch ends, and the start of a block comment that never does. -/
structure Blanks where
  cursor : Cursor
  openComment : Option Nat
  deriving Repr, DecidableEq

/-- Skip from a state of the blank stretch. -/
def skipFrom (acrossLines : Bool) : BlankState → Text → Nat → Blanks
  | .block start, [], offset => ⟨⟨[], offset⟩, some start⟩
  | _, [], offset => ⟨⟨[], offset⟩, none⟩
  | .comment, byte :: rest, offset =>
      if Byte.isSeparator byte then
        if acrossLines then skipFrom acrossLines .plain rest (offset + 1)
        else ⟨⟨byte :: rest, offset⟩, none⟩
      else skipFrom acrossLines .comment rest (offset + 1)
  | .block start, byte :: rest, offset =>
      if opensBlock (byte :: rest) then
        match rest with
        | _ :: after => skipFrom acrossLines .plain after (offset + 2)
        | [] => ⟨⟨[], offset + 1⟩, some start⟩
      else skipFrom acrossLines (.block start) rest (offset + 1)
  | state, byte :: rest, offset =>
      if byte == Byte.hash then
        if opensBlock (byte :: rest) then
          match rest with
          | _ :: after => skipFrom acrossLines (.block offset) after (offset + 2)
          | [] => ⟨⟨[], offset + 1⟩, none⟩
        else skipFrom acrossLines .comment rest (offset + 1)
      else if byte == Byte.backslash && (rest.head?.any isLineBreak) then
        skipFrom acrossLines .joined rest (offset + 1)
      else if state == .joined && isLineBreak byte then
        skipFrom acrossLines .joined rest (offset + 1)
      else if Byte.isSeparator byte then
        if acrossLines then skipFrom acrossLines .plain rest (offset + 1)
        else ⟨⟨byte :: rest, offset⟩, none⟩
      else if Byte.isSpace byte then skipFrom acrossLines .plain rest (offset + 1)
      else ⟨⟨byte :: rest, offset⟩, none⟩

/-- Skip the blank stretch at a cursor. -/
def skipBlanks (acrossLines : Bool) (cursor : Cursor) : Blanks :=
  skipFrom acrossLines .plain cursor.rest cursor.offset

end LittleScript.Source
