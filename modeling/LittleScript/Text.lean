namespace LittleScript

/-!
# Text

Every datum of the language is a byte string.  This module fixes the type, names the bytes that
carry meaning for the reader of scripts, classifies bytes, and holds the operations on whole texts:
order, search, replacement, splitting and joining.
-/

/-- A byte string, the only kind of value that scripts have. -/
abbrev Text := List UInt8

namespace Byte

@[match_pattern] abbrev tab : UInt8 := 0x09
@[match_pattern] abbrev newline : UInt8 := 0x0a
@[match_pattern] abbrev verticalTab : UInt8 := 0x0b
@[match_pattern] abbrev formFeed : UInt8 := 0x0c
@[match_pattern] abbrev carriageReturn : UInt8 := 0x0d
@[match_pattern] abbrev space : UInt8 := 0x20
@[match_pattern] abbrev bang : UInt8 := 0x21
@[match_pattern] abbrev doubleQuote : UInt8 := 0x22
@[match_pattern] abbrev hash : UInt8 := 0x23
@[match_pattern] abbrev dollar : UInt8 := 0x24
@[match_pattern] abbrev percent : UInt8 := 0x25
@[match_pattern] abbrev ampersand : UInt8 := 0x26
@[match_pattern] abbrev singleQuote : UInt8 := 0x27
@[match_pattern] abbrev openParen : UInt8 := 0x28
@[match_pattern] abbrev closeParen : UInt8 := 0x29
@[match_pattern] abbrev star : UInt8 := 0x2a
@[match_pattern] abbrev plus : UInt8 := 0x2b
@[match_pattern] abbrev minus : UInt8 := 0x2d
@[match_pattern] abbrev dot : UInt8 := 0x2e
@[match_pattern] abbrev slash : UInt8 := 0x2f
@[match_pattern] abbrev zero : UInt8 := 0x30
@[match_pattern] abbrev nine : UInt8 := 0x39
@[match_pattern] abbrev colon : UInt8 := 0x3a
@[match_pattern] abbrev semicolon : UInt8 := 0x3b
@[match_pattern] abbrev less : UInt8 := 0x3c
@[match_pattern] abbrev equal : UInt8 := 0x3d
@[match_pattern] abbrev greater : UInt8 := 0x3e
@[match_pattern] abbrev openBracket : UInt8 := 0x5b
@[match_pattern] abbrev backslash : UInt8 := 0x5c
@[match_pattern] abbrev closeBracket : UInt8 := 0x5d
@[match_pattern] abbrev underscore : UInt8 := 0x5f
@[match_pattern] abbrev openBrace : UInt8 := 0x7b
@[match_pattern] abbrev bar : UInt8 := 0x7c
@[match_pattern] abbrev closeBrace : UInt8 := 0x7d
@[match_pattern] abbrev tilde : UInt8 := 0x7e

/-- The six ASCII blanks: space, tab, newline, vertical tab, form feed and carriage return. -/
def isSpace (byte : UInt8) : Bool :=
  byte == space || (tab ≤ byte && byte ≤ carriageReturn)

/-- A byte that ends a command: newline, carriage return or semicolon. -/
def isSeparator (byte : UInt8) : Bool :=
  byte == newline || byte == carriageReturn || byte == semicolon

/-- A byte that ends a bare run of ordinary bytes besides the blanks. -/
def isSpecial (byte : UInt8) : Bool :=
  byte == dollar || byte == openBrace || byte == closeBrace || byte == openBracket ||
    byte == closeBracket || byte == doubleQuote || byte == singleQuote || byte == semicolon

/-- A decimal digit. -/
def isDigit (byte : UInt8) : Bool :=
  zero ≤ byte && byte ≤ nine

/-- An ASCII letter or digit. -/
def isAlphanumeric (byte : UInt8) : Bool :=
  isDigit byte || (0x61 ≤ byte && byte ≤ 0x7a) || (0x41 ≤ byte && byte ≤ 0x5a)

/-- A printing ASCII byte that is neither a letter, a digit nor the space. -/
def isPunctuation (byte : UInt8) : Bool :=
  space < byte && byte < 0x7f && !isAlphanumeric byte

/-- ASCII upper-case letters become lower case; every other byte stays. -/
def toLower (byte : UInt8) : UInt8 :=
  if 0x41 ≤ byte && byte ≤ 0x5a then byte + 0x20 else byte

/-- ASCII lower-case letters become upper case; every other byte stays. -/
def toUpper (byte : UInt8) : UInt8 :=
  if 0x61 ≤ byte && byte ≤ 0x7a then byte - 0x20 else byte

end Byte

namespace Text

/-- The UTF-8 bytes of a string. -/
def ofString (string : String) : Text :=
  string.toUTF8.data.toList

/-- The decimal digits of a natural number, without leading zeros. -/
def ofNat (number : Nat) : Text :=
  (Nat.toDigits 10 number).map fun digit => UInt8.ofNat digit.toNat

/-- The decimal digits of an integer, behind a minus sign when it is negative. -/
def ofInt (number : Int) : Text :=
  if number < 0 then Byte.minus :: ofNat number.natAbs else ofNat number.natAbs

/-- Decimal digits padded with zeros on the left to at least `width` bytes. -/
def ofNatPadded (width number : Nat) : Text :=
  let digits := ofNat number
  List.replicate (width - digits.length) Byte.zero ++ digits

/-- `1` for true and `0` for false. -/
def ofBool (truth : Bool) : Text :=
  if truth then [0x31] else [Byte.zero]

/-- Bytewise lexicographic order; a proper beginning of a text comes before it. -/
def compare : Text → Text → Ordering
  | [], [] => .eq
  | [], _ :: _ => .lt
  | _ :: _, [] => .gt
  | first :: rest, otherFirst :: otherRest =>
      if first < otherFirst then .lt
      else if otherFirst < first then .gt
      else compare rest otherRest

/-- Join texts with a separator between neighbours. -/
def joinWith (separator : Text) (pieces : List Text) : Text :=
  (pieces.intersperse separator).flatten

/-- Join texts with single spaces. -/
def joinSpaced (pieces : List Text) : Text :=
  joinWith [Byte.space] pieces

/-- Offset of the first occurrence of `needle` at or after the offset already passed. -/
def indexFrom (needle : Text) : Text → Nat → Option Nat
  | [], passed => if needle.isEmpty then some passed else none
  | byte :: rest, passed =>
      if needle.isPrefixOf (byte :: rest) then some passed
      else indexFrom needle rest (passed + 1)

/-- Offset of the first occurrence of `needle`; the empty text occurs at offset 0. -/
def indexOf? (needle text : Text) : Option Nat :=
  indexFrom needle text 0

/--
Replace occurrences from left to right.  `covered` counts the bytes still belonging to the
occurrence replaced last; `done` is the result so far in reverse.
-/
def replaceFrom (old new : Text) : Nat → Text → Text → Text
  | _, [], done => done.reverse
  | covered + 1, _ :: rest, done => replaceFrom old new covered rest done
  | 0, byte :: rest, done =>
      if old.isPrefixOf (byte :: rest) then
        replaceFrom old new (old.length - 1) rest (new.reverse ++ done)
      else
        replaceFrom old new 0 rest (byte :: done)

/-- Replace every occurrence of a non-empty `old`, scanning left to right without overlap. -/
def replaceAll (old new text : Text) : Text :=
  replaceFrom old new 0 text []

/-- Cut at every byte that `cut` accepts; `piece` and `done` are in reverse. -/
def splitFrom (cut : UInt8 → Bool) : Text → Text → List Text → List Text
  | [], piece, done => (piece.reverse :: done).reverse
  | byte :: rest, piece, done =>
      if cut byte then splitFrom cut rest [] (piece.reverse :: done)
      else splitFrom cut rest (byte :: piece) done

/-- Cut a text at every byte that `cut` accepts, keeping empty pieces. -/
def splitAt (cut : UInt8 → Bool) (text : Text) : List Text :=
  splitFrom cut text [] []

/-- The lines of a text, which newlines separate. -/
def lines (text : Text) : List Text :=
  text.splitAt (· == Byte.newline)

/-- A text without its last occurrence of `ending`, when it ends with it. -/
def dropEnding (ending text : Text) : Text :=
  if ending.isSuffixOf text then text.take (text.length - ending.length) else text

/-- Insert a text into a list sorted bytewise. -/
def insertSorted (text : Text) : List Text → List Text
  | [] => [text]
  | first :: rest =>
      if compare text first == .gt then first :: insertSorted text rest
      else text :: first :: rest

/-- Sort texts bytewise. -/
def sort (texts : List Text) : List Text :=
  texts.foldr insertSorted []

end Text

end LittleScript
