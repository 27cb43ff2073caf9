import LittleScript.Text

namespace LittleScript.Integer

/-!
# Decimal integers of 64 bits

Integers wrap around in two's complement.  Their text is decimal; reading refuses what does not
fit instead of wrapping.
-/

/-- The number that a run of decimal digits spells, continuing the number read so far. -/
def digitsFrom : Text → Nat → Option Nat
  | [], number => some number
  | byte :: rest, number =>
      if Byte.isDigit byte then digitsFrom rest (number * 10 + (byte.toNat - 48)) else none

/-- The number that a non-empty text of decimal digits spells. -/
def natural? (text : Text) : Option Nat :=
  if text.isEmpty then none else digitsFrom text 0

/-- One past the greatest integer of 64 bits. -/
def limit : Nat := 0x8000000000000000

/-- Read an optional sign and decimal digits as an integer in the 64-bit range. -/
def read? (text : Text) : Option Int64 :=
  match text with
  | Byte.minus :: digits =>
      match natural? digits with
      | some number => if number ≤ limit then some (Int64.ofInt (-number)) else none
      | none => none
  | Byte.plus :: digits => unsigned? digits
  | digits => unsigned? digits
where
  /-- Read digits without a sign. -/
  unsigned? (digits : Text) : Option Int64 :=
    match natural? digits with
    | some number => if number < limit then some (Int64.ofInt number) else none
    | none => none

/-- The decimal text of an integer. -/
def text (number : Int64) : Text :=
  Text.ofInt number.toInt

/-- Shift left; every bit is gone after 64 places. -/
def shiftLeft (number count : Int64) : Int64 :=
  if 64 ≤ count.toInt then 0 else number <<< count

/-- Shift right, keeping the sign; only the sign is left after 64 places. -/
def shiftRight (number count : Int64) : Int64 :=
  if 64 ≤ count.toInt then (if number < 0 then -1 else 0) else number >>> count

end LittleScript.Integer
