import LittleScript.Number.Integer
import LittleScript.Number.Literal

namespace LittleScript.Integer

/-!
# Integers with a base mark

An integer may name its base by a mark in front: `0b`, `0o` or `0` and `0x`.  Underscores may stand
between digits and after the mark.
-/

/-- Why a text is no integer in the 64-bit range. -/
inductive Misread where
  | malformed
  | outOfRange
  deriving Repr, DecidableEq

/-- The value of a digit or letter, letters counting from ten. -/
def digitValue? (byte : UInt8) : Option Nat :=
  let lower := Byte.toLower byte
  if Byte.isDigit byte then some (byte.toNat - 48)
  else if 0x61 ≤ lower && lower ≤ 0x7a then some (lower.toNat - 87)
  else none

/-- Read digits in a base from left to right; a number past 64 bits ends the reading. -/
def readDigits (base : Nat) : Text → Nat → Except Misread Nat
  | [], number => .ok number
  | byte :: rest, number =>
      if byte == Byte.underscore then readDigits base rest number
      else
        match digitValue? byte with
        | none => .error .malformed
        | some digit =>
            if base ≤ digit then .error .malformed
            else if 2 * limit ≤ number * base + digit then .error .outOfRange
            else readDigits base rest (number * base + digit)

/-- The base that the beginning of an unsigned text names, and the digits. -/
def splitBase (unsigned : Text) : Nat × Text :=
  match unsigned with
  | Byte.zero :: mark :: first :: rest =>
      let lower := Byte.toLower mark
      if lower == 0x62 then (2, first :: rest)
      else if lower == 0x6f then (8, first :: rest)
      else if lower == 0x78 then (16, first :: rest)
      else (8, mark :: first :: rest)
  | Byte.zero :: rest => (8, rest)
  | _ => (10, unsigned)

/-- Read an unsigned number of at most 64 bits. -/
def readUnsigned (unsigned : Text) : Except Misread Nat := do
  if unsigned.isEmpty then throw .malformed
  let (base, digits) := splitBase unsigned
  let number ← readDigits base digits 0
  if unsigned.contains Byte.underscore && !Binary64.underscoresAllowed unsigned then
    throw .malformed
  return number

/-- Read an integer with an optional sign and base mark. -/
def readMarked (text : Text) : Except Misread Int64 := do
  let negative := text.head? == some Byte.minus
  let unsigned := if negative || text.head? == some Byte.plus then text.drop 1 else text
  let number ← readUnsigned unsigned
  if negative then
    if limit < number then throw .outOfRange else return Int64.ofInt (-number)
  else if limit ≤ number then throw .outOfRange
  else return Int64.ofNat number

end LittleScript.Integer
