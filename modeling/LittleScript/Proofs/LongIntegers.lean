import LittleScript.Proofs.IntegerText

namespace LittleScript

/-!
# Integers of any length

Text is read as an integer of 64 bits.  An integer that does not fit is read as a binary64 number
and truncated: as long as it rounds to a finite number it counts as the least integer of 64 bits,
and from there on as no number at all.
-/

namespace Binary64

/-! ## The nearest number to an integer -/

/-- Rounding a quotient adds at most one. -/
theorem roundQuotient_bounds
    (numerator denominator : Nat) :
    numerator / denominator ≤ roundQuotient numerator denominator ∧
      roundQuotient numerator denominator ≤ numerator / denominator + 1 := by
  simp only [roundQuotient]
  split <;> omega

/-- The leading bits of an integer, as many as a significand has. -/
theorem leading_bits
    {number : Nat}
    (large : 53 ≤ number.log2) :
    hiddenBit ≤ number / 2 ^ (number.log2 - 52) ∧
      number / 2 ^ (number.log2 - 52) < 2 * hiddenBit := by
  have isSome : number ≠ 0 := by
    rintro rfl
    simp at large
  have least := Nat.log2_self_le isSome
  have greatest : number < 2 ^ (number.log2 + 1) := Nat.lt_log2_self
  have split : number.log2 = 52 + (number.log2 - 52) := by omega
  have splitNext : number.log2 + 1 = 53 + (number.log2 - 52) := by omega
  rw [split, Nat.pow_add] at least
  rw [splitNext, Nat.pow_add] at greatest
  have positive : 0 < 2 ^ (number.log2 - 52) := Nat.two_pow_pos _
  exact ⟨(Nat.le_div_iff_mul_le positive).mpr least, (Nat.div_lt_iff_lt_mul positive).mpr greatest⟩

/-- The bits for an integer that has more of them than a significand. -/
theorem nearestBits_integer
    {number : Nat}
    (large : 53 ≤ number.log2) :
    nearestBits number 1 =
      (number.log2 + 1023) * hiddenBit +
        (roundQuotient number (2 ^ (number.log2 - 52)) - hiddenBit) := by
  have isSome : number ≠ 0 := by
    rintro rfl
    simp at large
  have isLow : (number.log2 : Int) - (Nat.log2 1 : Int) - 53 =
      ((number.log2 - 53 : Nat) : Int) := by
    rw [show Nat.log2 1 = 0 from rfl]
    omega
  have trial : 2 * hiddenBit ≤ number / 2 ^ (number.log2 - 53) := by
    have least := Nat.log2_self_le isSome
    have split : number.log2 = 53 + (number.log2 - 53) := by omega
    rw [split, Nat.pow_add] at least
    exact (Nat.le_div_iff_mul_le (Nat.two_pow_pos _)).mpr least
  have isNormal : ((number.log2 - 53 : Nat) : Int) + 1 = ((number.log2 - 52 : Nat) : Int) := by
    omega
  have isExponent : max ((number.log2 - 52 : Nat) : Int) leastExponent =
      ((number.log2 - 52 : Nat) : Int) := by
    rw [leastExponent]
    omega
  have scaled : ∀ places : Nat, scaleDown places number 1 = (number, 2 ^ places) := by
    intro places
    rw [scaleDown, if_pos (Int.natCast_nonneg places), Nat.one_mul, Int.toNat_natCast]
    rfl
  have isField : (((number.log2 - 52 : Nat) : Int) + 1075).toNat = number.log2 + 1023 := by
    omega
  have full : ¬roundQuotient number (2 ^ (number.log2 - 52)) < hiddenBit :=
    Nat.not_lt.mpr ((leading_bits large).1.trans (roundQuotient_bounds _ _).1)
  rw [nearestBits, if_neg isSome]
  simp only [isLow, scaled, if_pos trial, isNormal, isExponent, if_neg full, isField]

/-- From `2 ^ 63` on an integer is beyond the integers of 64 bits. -/
theorem beyondBits_le_nearestBits
    {number : Nat}
    (large : 2 ^ 63 ≤ number) :
    beyondBits ≤ nearestBits number 1 := by
  have places : 63 ≤ number.log2 := (Nat.le_log2 (by omega)).mpr large
  rw [nearestBits_integer (by omega), beyondBits]
  exact (Nat.mul_le_mul_right hiddenBit (by omega)).trans (Nat.le_add_right _ _)

/-- The least integer that is rounded to an infinity, half a place below `2 ^ 1024`. -/
def leastInfinite : Nat := (2 ^ 54 - 1) * 2 ^ 970

/-- What is rounded to a significand that still fits, in halves of its last place. -/
theorem roundQuotient_lt_iff
    {number half : Nat}
    (positive : 0 < half)
    (leading : number / (2 * half) < 2 ^ 53) :
    roundQuotient number (2 * half) < 2 ^ 53 ↔ number < (2 ^ 54 - 1) * half := by
  have divided := Nat.div_add_mod number (2 * half)
  have remainder : number % (2 * half) < 2 * half := Nat.mod_lt _ (by omega)
  simp only [roundQuotient, Bool.or_eq_true, Bool.and_eq_true, decide_eq_true_eq, beq_iff_eq]
  generalize number / (2 * half) = quotient at *
  generalize number % (2 * half) = rest at *
  rcases (Nat.le_sub_one_of_lt leading).lt_or_eq with less | greatest
  · have product : 2 * half * quotient ≤ 2 * half * (2 ^ 53 - 2) :=
      Nat.mul_le_mul_left _ (Nat.le_sub_one_of_lt less)
    refine iff_of_true ?_ (by omega)
    split <;> omega
  · subst greatest
    split <;> omega

/-- Where the nearest number to an integer is a finite one. -/
theorem nearestBits_lt_iff
    {number : Nat}
    (large : 2 ^ 63 ≤ number) :
    nearestBits number 1 < infinityBits ↔ number < leastInfinite := by
  have isSome : number ≠ 0 := by omega
  have places : 63 ≤ number.log2 := (Nat.le_log2 isSome).mpr large
  have leading : hiddenBit ≤ number / 2 ^ (number.log2 - 52) ∧
      number / 2 ^ (number.log2 - 52) < 2 * hiddenBit := leading_bits (by omega)
  have rounded := roundQuotient_bounds number (2 ^ (number.log2 - 52))
  have least := Nat.log2_self_le isSome
  have greatest : number < 2 ^ (number.log2 + 1) := Nat.lt_log2_self
  obtain ⟨spare, isSpare⟩ : ∃ spare, spare = 970 := ⟨970, rfl⟩
  have positive := Nat.two_pow_pos spare
  rw [nearestBits_integer (by omega), infinityBits, leastInfinite, ← isSpare]
  rcases Nat.lt_trichotomy number.log2 1023 with below | last | above
  · have fewer : 2 ^ (number.log2 + 1) ≤ 2 ^ (53 + spare) :=
      Nat.pow_le_pow_right (by decide) (by omega)
    rw [Nat.pow_add 2 53 spare] at fewer
    refine iff_of_true ?_ (by omega)
    unfold hiddenBit at *
    omega
  · have isDenominator : number.log2 - 52 = spare + 1 := by omega
    rw [isDenominator, Nat.pow_succ'] at leading rounded ⊢
    rw [← roundQuotient_lt_iff positive leading.2, last]
    unfold hiddenBit at *
    omega
  · have more : 2 ^ (54 + spare) ≤ 2 ^ number.log2 :=
      Nat.pow_le_pow_right (by decide) (by omega)
    rw [Nat.pow_add 2 54 spare] at more
    refine iff_of_false ?_ (by omega)
    unfold hiddenBit at *
    omega

/-- An integer is rounded to a finite number or is out of range. -/
theorem round_integer
    (negative : Bool)
    {number : Nat}
    (large : 2 ^ 63 ≤ number) :
    round negative number 1 =
      if number < leastInfinite then ⟨negative, nearestBits number 1, true⟩
      else ⟨negative, infinityBits, false⟩ :=
  if_congr (nearestBits_lt_iff large) rfl rfl

/-! ## Reading the digits of an integer -/

/-- A mantissa without a point, with the number of digits that it has behind leading zeros. -/
structure Mantissa.Whole (mantissa : Mantissa) : Prop where
  noPoint : mantissa.sawPoint = false
  noFraction : mantissa.fractionDigits = 0
  ofZero : mantissa.number = 0 → mantissa.significantDigits = 0
  least : mantissa.number ≠ 0 → 10 ^ mantissa.significantDigits ≤ 10 * mantissa.number
  greatest : mantissa.number < 10 ^ mantissa.significantDigits

theorem Mantissa.Whole.initial :
    Mantissa.Whole {} where
  noPoint := rfl
  noFraction := rfl
  ofZero _ := rfl
  least isSome := absurd rfl isSome
  greatest := Nat.one_pos

theorem Mantissa.Whole.push
    {mantissa : Mantissa}
    (whole : mantissa.Whole)
    {digit : Nat}
    (small : digit < 10) :
    (mantissa.push 10 digit).Whole := by
  by_cases isZero : mantissa.number = 0
  · have noDigits := whole.ofZero isZero
    by_cases isZeroDigit : digit = 0
    · constructor <;> simp [Mantissa.push, isZero, isZeroDigit, whole.noPoint, whole.noFraction]
    · constructor <;>
        simp [Mantissa.push, isZero, isZeroDigit, whole.noPoint, whole.noFraction, noDigits] <;>
        omega
  · have least := whole.least isZero
    have greatest := whole.greatest
    constructor <;>
      simp [Mantissa.push, isZero, whole.noPoint, whole.noFraction, Nat.pow_succ] <;>
      omega

/-- Digits are read to their end, and the mantissa has the number that they spell. -/
theorem readMantissa_digits
    {text : Text}
    (digits : ∀ byte ∈ text, Byte.isDigit byte = true)
    {mantissa : Mantissa}
    (whole : mantissa.Whole) :
    ∃ after, readMantissa false text mantissa = (after, []) ∧ after.Whole ∧
      Integer.digitsFrom text mantissa.number = some after.number ∧
      (text ≠ [] ∨ mantissa.sawDigit = true → after.sawDigit = true) := by
  induction text generalizing mantissa with
  | nil =>
      exact ⟨mantissa, rfl, whole, rfl, fun saw => saw.resolve_left fun isSome => isSome rfl⟩
  | cons byte rest inductionHypothesis =>
      have isDigit := digits byte List.mem_cons_self
      have notUnderscore : (byte == Byte.underscore) = false :=
        beq_false_of_ne fun same => by subst same; exact absurd isDigit (by decide)
      have notDot : (byte == Byte.dot) = false :=
        beq_false_of_ne fun same => by subst same; exact absurd isDigit (by decide)
      have small : byte.toNat - 48 < 10 := by
        rw [Byte.isDigit, Bool.and_eq_true, decide_eq_true_iff, decide_eq_true_iff,
          UInt8.le_iff_toNat_le, UInt8.le_iff_toNat_le] at isDigit
        have greatest : byte.toNat ≤ 57 := isDigit.2
        omega
      obtain ⟨after, read, wholeAfter, spells, saw⟩ := inductionHypothesis
        (fun other member => digits other (List.mem_cons_of_mem _ member)) (whole.push small)
      refine ⟨after, ?_, wholeAfter, ?_, fun _ => saw (.inr rfl)⟩
      · simp [readMantissa, digit?, notUnderscore, notDot, isDigit, read]
      · rw [Integer.digitsFrom, if_pos isDigit]
        exact spells

/-- An integer of more digits than any finite number is rounded to an infinity as well. -/
theorem roundDecimal_whole
    (negative : Bool)
    {mantissa : Mantissa}
    (whole : mantissa.Whole)
    (large : 2 ^ 63 ≤ mantissa.number) :
    roundDecimal negative mantissa 0 = round negative mantissa.number 1 := by
  have isSome : mantissa.number ≠ 0 := by omega
  have isPower : (0 : Int) - (mantissa.fractionDigits : Int) = 0 := by
    rw [whole.noFraction]
    rfl
  have notTiny : ¬(0 : Int) + mantissa.significantDigits < -330 := by omega
  simp only [roundDecimal, isPower, isSome, notTiny, decide_false, Bool.or_false,
    Bool.false_eq_true, if_false]
  split
  case isTrue huge =>
    obtain ⟨few, isFew⟩ : ∃ few, few = 310 := ⟨310, rfl⟩
    have manyDigits : 10 ^ (few + 1) ≤ 10 * mantissa.number :=
      (Nat.pow_le_pow_right (by decide) (by omega)).trans (whole.least isSome)
    rw [Nat.pow_succ'] at manyDigits
    have beyond : leastInfinite ≤ 10 ^ few := by
      rw [isFew]
      decide +kernel
    have infinite : ¬mantissa.number < leastInfinite := by omega
    rw [round_integer negative large, if_neg infinite]
  case isFalse => simp

/-- Digits are read as a decimal number, not as a hexadecimal one. -/
theorem readLiteral?_digits
    (negative : Bool)
    {text : Text}
    (digits : ∀ byte ∈ text, Byte.isDigit byte = true)
    (isSome : text ≠ []) :
    ∃ mantissa : Mantissa, mantissa.Whole ∧
      Integer.natural? text = some mantissa.number ∧
      readLiteral? negative text = some (roundDecimal negative mantissa 0) := by
  obtain ⟨mantissa, read, whole, spells, saw⟩ := readMantissa_digits digits .initial
  have sawDigit := saw (.inl isSome)
  have noUnderscore : List.contains text Byte.underscore = false := by
    rw [List.contains_eq_mem, decide_eq_false_iff_not]
    exact fun member => absurd (digits _ member) (by decide)
  refine ⟨mantissa, whole, ?_, ?_⟩
  · rw [Integer.natural?, if_neg (by simpa using isSome)]
    exact spells
  · unfold readLiteral?
    split
    case h_1 mark following rest =>
      have isDigit : Byte.isDigit mark = true := digits mark (by simp)
      have notMark : (Byte.toLower mark == 0x78) = false := by
        rw [Byte.toLower_of_isDigit isDigit]
        exact beq_false_of_ne fun same => by subst same; exact absurd isDigit (by decide)
      simp only [notMark, Bool.false_eq_true, if_false, read, noUnderscore, sawDigit]
      simp
    case h_2 =>
      simp only [Bool.false_eq_true, if_false, read, noUnderscore, sawDigit]
      simp

/-- No value is named without a certain letter. -/
theorem readNamed?_of_lacks
    {text : Text}
    (lacks : ∀ byte ∈ text, Byte.toLower byte ≠ 0x6e) :
    readNamed? text = none := by
  have differs : ∀ name ∈ ["inf", "+inf", "infinity", "+infinity", "-inf", "-infinity", "nan"],
      (text.map Byte.toLower == Text.ofString name) = false := by
    intro name member
    have isThere : 0x6e ∈ Text.ofString name := by
      revert name
      decide +kernel
    refine beq_false_of_ne fun same => ?_
    rw [← same, List.mem_map] at isThere
    obtain ⟨byte, member, isLetter⟩ := isThere
    exact lacks byte member isLetter
  simp [readNamed?, differs]

/-- Neither a digit nor a minus is that letter. -/
theorem toLower_ne_of_digits
    {text : Text}
    (digits : ∀ byte ∈ text, Byte.isDigit byte = true) :
    ∀ byte ∈ Byte.minus :: text, Byte.toLower byte ≠ 0x6e := by
  intro byte member
  rcases List.mem_cons.mp member with rfl | inside
  · decide
  · rw [Byte.toLower_of_isDigit (digits byte inside)]
    rintro rfl
    exact absurd (digits _ inside) (by decide)

/-- An integer beyond 64 bits is read as the number nearest to it. -/
theorem readRounded?_ofInt
    {number : Int}
    (large : 2 ^ 63 ≤ number.natAbs) :
    readRounded? (Text.ofInt number) =
      some (round (decide (number < 0)) number.natAbs 1) := by
  have digits := Text.ofNat_digits number.natAbs
  have lacks := toLower_ne_of_digits digits
  have literal : ∀ negative, readLiteral? negative (Text.ofNat number.natAbs) =
      some (round negative number.natAbs 1) := by
    intro negative
    obtain ⟨mantissa, whole, spells, read⟩ :=
      readLiteral?_digits negative digits (Text.ofNat_ne_nil _)
    rw [Integer.natural?_ofNat] at spells
    have isNumber : mantissa.number = number.natAbs := (Option.some.inj spells).symm
    rw [read, roundDecimal_whole negative whole (isNumber ▸ large), isNumber]
  rw [Text.ofInt]
  split
  case isTrue negative =>
    rw [readRounded?.eq_def, readNamed?_of_lacks lacks, decide_eq_true negative]
    exact literal true
  case isFalse natural =>
    have lacksLater : ∀ byte ∈ Text.ofNat number.natAbs, Byte.toLower byte ≠ 0x6e :=
      fun byte member => lacks byte (List.mem_cons_of_mem _ member)
    have unsigned := literal false
    rw [readRounded?.eq_def, readNamed?_of_lacks lacksLater, decide_eq_false natural]
    generalize Text.ofNat number.natAbs = text at digits unsigned
    dsimp only
    split
    case h_1 => exact absurd (digits Byte.minus List.mem_cons_self) (by decide)
    case h_2 => exact absurd (digits Byte.plus List.mem_cons_self) (by decide)
    case h_3 => exact unsigned

end Binary64

/-! ## Integers read from text -/

/-- An integer that fits is kept. -/
theorem Integer.toInt_ofInt
    {number : Int}
    (fits : -(Integer.limit : Int) ≤ number ∧ number < Integer.limit) :
    (Int64.ofInt number).toInt = number := by
  rw [Integer.limit] at fits
  rw [Int64.toInt_ofInt]
  simp only [Int.bmod, Int64.size]
  split <;> omega

/--
What the text of an integer is read as: the integer, if it has 64 bits; otherwise the least integer
of 64 bits, as long as there is a finite number nearest to it.
-/
theorem Text.toInt?_ofInt
    (number : Int) :
    (Text.ofInt number).toInt? =
      if -(Integer.limit : Int) ≤ number ∧ number < Integer.limit then some (Int64.ofInt number)
      else if number.natAbs < Binary64.leastInfinite then some Int64.minValue
      else none := by
  rw [Text.toInt?, Text.strip_ofInt]
  simp only [Integer.read?_ofInt]
  by_cases fits : -(Integer.limit : Int) ≤ number ∧ number < Integer.limit
  · simp only [if_pos fits]
  · have large : 2 ^ 63 ≤ number.natAbs := by
      rw [Integer.limit] at fits
      omega
    have isBeyond := Binary64.beyondBits_le_nearestBits large
    simp only [if_neg fits, Binary64.readInRange?, Binary64.readRounded?_ofInt large,
      Binary64.round_integer _ large]
    split
    · simp [Binary64.Rounded.truncate, Binary64.truncateBits, isBeyond]
    · rfl

end LittleScript
