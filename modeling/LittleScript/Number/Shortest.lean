import LittleScript.Number.Binary64

namespace LittleScript.Binary64

/-!
# Shortest decimal text

The text of a finite number has the fewest digits that read back as the number; among those it is
the nearest to the exact value, a tie going to the even digit.  It never has an exponent.
-/

/-- A positive decimal `digits * 10 ^ power`. -/
structure DecimalParts where
  digits : Nat
  power : Int
  deriving Repr, DecidableEq

/--
The reals that round to a positive number, with its exact value, over one denominator.  The ends
belong to the range when the significand is even.
-/
structure RoundingRange where
  low : Nat
  value : Nat
  high : Nat
  denominator : Nat
  closed : Bool

/-- The range of a positive significand and exponent; below a power of two it is narrower. -/
def roundingRange (significand : Nat) (exponent : Int) : RoundingRange :=
  let below := if significand = hiddenBit && leastExponent < exponent then 1 else 2
  let factor := Nat.pow 2 exponent.toNat
  { low := (4 * significand - below) * factor
    value := 4 * significand * factor
    high := (4 * significand + 2) * factor
    denominator := 4 * Nat.pow 2 (-exponent).toNat
    closed := significand % 2 = 0 }

/-- Whether a quotient with the scaled denominator lies in the range. -/
def RoundingRange.covers (range : RoundingRange) (scaled unit : Nat) : Bool :=
  if range.closed then range.low * unit ≤ scaled && scaled ≤ range.high * unit
  else range.low * unit < scaled && scaled < range.high * unit

/-- The decimal nearest to the value on the grid of `10 ^ power`, if one there is in the range. -/
def onGrid? (range : RoundingRange) (power : Int) : Option DecimalParts :=
  let unit := Nat.pow 10 (-power).toNat
  let step := Nat.pow 10 power.toNat * range.denominator
  let target := range.value * unit
  let floor := target / step
  let lowFits := range.covers (floor * step) unit
  let highFits := range.covers ((floor + 1) * step) unit
  let twice := 2 * (target - floor * step)
  if lowFits && highFits then
    if twice < step || (twice == step && floor % 2 == 0) then some ⟨floor, power⟩
    else some ⟨floor + 1, power⟩
  else if lowFits then some ⟨floor, power⟩
  else if highFits then some ⟨floor + 1, power⟩
  else none

/-- The first hit on ever finer grids. -/
def finestNeeded (range : RoundingRange) : Nat → Int → DecimalParts
  | 0, power => ⟨range.value / range.denominator, max power 0⟩
  | grids + 1, power =>
      match onGrid? range power with
      | some decimal => decimal
      | none => finestNeeded range grids (power - 1)

/-- The shortest decimal of a positive number. -/
def shortest (significand : Nat) (exponent : Int) : DecimalParts :=
  let top := ((significand.log2 : Int) + exponent + 1) * 30103 / 100000 + 2
  finestNeeded (roundingRange significand exponent) 24 top

/-- Positional notation of a decimal. -/
def positional (decimal : DecimalParts) : Text :=
  let digits := Text.ofNat decimal.digits
  if 0 ≤ decimal.power then digits ++ List.replicate decimal.power.toNat Byte.zero
  else
    let places := (-decimal.power).toNat
    let padded := List.replicate (places + 1 - digits.length) Byte.zero ++ digits
    let whole := padded.length - places
    padded.take whole ++ Byte.dot :: padded.drop whole

/-- The text of a number. -/
def text (number : Float) : Text :=
  if number.isNaN then Text.ofString "NaN"
  else if number.isInf then Text.ofString (if isNegative number then "-Inf" else "+Inf")
  else
    let finite := parts number
    let magnitude :=
      if finite.significand = 0 then [Byte.zero]
      else positional (shortest finite.significand finite.exponent)
    if finite.negative then Byte.minus :: magnitude else magnitude

end LittleScript.Binary64
