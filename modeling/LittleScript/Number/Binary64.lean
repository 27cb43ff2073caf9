import LittleScript.Text

namespace LittleScript.Binary64

/-!
# Exact arithmetic behind binary64 numbers

A finite number of 64 bits is a magnitude `significand * 2 ^ exponent` with a sign.  This module
takes such numbers apart, rounds an exact quotient to the nearest one, and computes remainders
without rounding.
-/

/-- A finite number taken apart: sign and exact magnitude. -/
structure Parts where
  negative : Bool
  significand : Nat
  exponent : Int
  deriving Repr, DecidableEq

/-- The exponent of the least subnormal number. -/
def leastExponent : Int := -1074

/-- The significand of one: the bit that the fraction of a normal number is added to. -/
def hiddenBit : Nat := 0x10000000000000

/-- The bit of a word that holds the sign. -/
def signBit : Nat := 0x8000000000000000

/-- The bits of an infinity without its sign. -/
def infinityBits : Nat := 0x7ff * hiddenBit

/-- Sign bit of a word. -/
def isNegative (number : Float) : Bool :=
  number.toBits.toNat / signBit == 1

/-- The bits of a number without its sign. -/
def magnitudeBits (number : Float) : Nat :=
  number.toBits.toNat % signBit

/-- The parts of a finite number with this sign and these bits. -/
def partsOfBits (negative : Bool) (bits : Nat) : Parts :=
  let field := bits / hiddenBit
  let fraction := bits % hiddenBit
  if field = 0 then ⟨negative, fraction, leastExponent⟩
  else ⟨negative, hiddenBit + fraction, Int.ofNat field - 1075⟩

/-- The parts of a finite number. -/
def parts (number : Float) : Parts :=
  partsOfBits (isNegative number) (magnitudeBits number)

/-- The number with these bits and this sign. -/
def ofMagnitudeBits (negative : Bool) (bits : Nat) : Float :=
  Float.ofBits (UInt64.ofNat (if negative then signBit + bits else bits))

/-- Quotient rounded to the nearest integer, a tie to the even one. -/
def roundQuotient (numerator denominator : Nat) : Nat :=
  let quotient := numerator / denominator
  let twice := 2 * (numerator % denominator)
  if twice > denominator || (twice == denominator && quotient % 2 == 1) then quotient + 1
  else quotient

/-- Scale a quotient by `2 ^ (-exponent)`, as a pair of numerator and denominator. -/
def scaleDown (exponent : Int) (numerator denominator : Nat) : Nat × Nat :=
  if 0 ≤ exponent then (numerator, denominator * Nat.pow 2 exponent.toNat)
  else (numerator * Nat.pow 2 (-exponent).toNat, denominator)

/--
The bits of the number nearest to `numerator / denominator`, ties to the even significand.  The
result is at least `infinityBits` exactly when the quotient is out of range.
-/
def nearestBits (numerator denominator : Nat) : Nat :=
  if numerator = 0 then 0
  else
    let low : Int := (numerator.log2 : Int) - (denominator.log2 : Int) - 53
    let trial := scaleDown low numerator denominator
    let normal := if 2 * hiddenBit ≤ trial.1 / trial.2 then low + 1 else low
    let exponent := max normal leastExponent
    let scaled := scaleDown exponent numerator denominator
    let significand := roundQuotient scaled.1 scaled.2
    if significand < hiddenBit then significand
    else (exponent + 1075).toNat * hiddenBit + (significand - hiddenBit)

/-- A rounded number, by its sign and its bits, together with whether the exact one was in range. -/
structure Rounded where
  negative : Bool
  bits : Nat
  inRange : Bool
  deriving Repr, DecidableEq

/-- The number that an exact one was rounded to. -/
def Rounded.value (rounded : Rounded) : Float :=
  ofMagnitudeBits rounded.negative rounded.bits

/-- Round an exact quotient with a sign; out of range it becomes an infinity. -/
def round (negative : Bool) (numerator denominator : Nat) : Rounded :=
  let bits := nearestBits numerator denominator
  if bits < infinityBits then ⟨negative, bits, true⟩ else ⟨negative, infinityBits, false⟩

/-- An exact magnitude `significand * 2 ^ exponent` brought back into 64 bits. -/
def assemble (negative : Bool) (significand : Nat) (exponent : Int) : Float :=
  if 0 ≤ exponent then (round negative (significand * Nat.pow 2 exponent.toNat) 1).value
  else (round negative significand (Nat.pow 2 (-exponent).toNat)).value

/--
Remainder of a division truncated toward zero, exact and with the sign of the dividend.  It is not
a number for a zero divisor or an infinite dividend, and the dividend for an infinite divisor.
-/
def remainder (dividend divisor : Float) : Float :=
  if divisor == 0 || dividend.isInf || dividend.isNaN || divisor.isNaN then 0.0 / 0.0
  else if divisor.isInf then dividend
  else
    let top := parts dividend
    let bottom := parts divisor
    let unit := min top.exponent bottom.exponent
    let left := top.significand * Nat.pow 2 (top.exponent - unit).toNat
    let right := bottom.significand * Nat.pow 2 (bottom.exponent - unit).toNat
    assemble top.negative (left % right) unit

/-- The bits of `2 ^ 63`: from there on a magnitude is beyond the integers of 64 bits. -/
def beyondBits : Nat := 1086 * hiddenBit

/--
Truncation toward zero to a 64-bit integer.  A number outside the range, or none at all, gives the
least integer, where other platforms may choose another.
-/
def truncateBits (negative : Bool) (bits : Nat) : Int64 :=
  if beyondBits ≤ bits then Int64.minValue
  else
    let exact := partsOfBits negative bits
    let whole := (exact.significand <<< exact.exponent.toNat) >>> (-exact.exponent).toNat
    Int64.ofInt (if negative then -Int.ofNat whole else Int.ofNat whole)

/-- Truncation of a number toward zero to a 64-bit integer. -/
def truncate (number : Float) : Int64 :=
  truncateBits (isNegative number) (magnitudeBits number)

/-- Truncation of a rounded number toward zero to a 64-bit integer. -/
def Rounded.truncate (rounded : Rounded) : Int64 :=
  truncateBits rounded.negative rounded.bits

end LittleScript.Binary64
