import LittleScript.Number
import Mathlib.Data.Nat.Digits.Defs

namespace LittleScript

/-!
# The text of integers

The decimal text of an integer of 64 bits reads back as that integer, also where text is read with
blanks around it.
-/

/-- The byte of a decimal digit. -/
theorem Byte.of_digit
    {digit : Char}
    (isDigit : digit.isDigit = true) :
    Byte.isDigit (UInt8.ofNat digit.toNat) = true ∧
      (UInt8.ofNat digit.toNat).toNat = digit.toNat := by
  rw [Char.isDigit, Bool.and_eq_true, decide_eq_true_iff, decide_eq_true_iff] at isDigit
  have least : 48 ≤ digit.toNat := UInt32.le_iff_toNat_le.mp isDigit.1
  have greatest : digit.toNat ≤ 57 := UInt32.le_iff_toNat_le.mp isDigit.2
  have isCode : (UInt8.ofNat digit.toNat).toNat = digit.toNat := by
    rw [UInt8.toNat_ofNat']
    omega
  refine ⟨?_, isCode⟩
  rw [Byte.isDigit, Bool.and_eq_true, decide_eq_true_iff, decide_eq_true_iff,
    UInt8.le_iff_toNat_le, UInt8.le_iff_toNat_le, isCode]
  exact ⟨least, greatest⟩

/-- Digits have no case. -/
theorem Byte.toLower_of_isDigit
    {byte : UInt8}
    (isDigit : Byte.isDigit byte = true) :
    Byte.toLower byte = byte := by
  rw [Byte.isDigit, Bool.and_eq_true, decide_eq_true_iff, decide_eq_true_iff,
    UInt8.le_iff_toNat_le, UInt8.le_iff_toNat_le] at isDigit
  have greatest : byte.toNat ≤ 57 := isDigit.2
  have notUpper : ¬0x41 ≤ byte := by
    rw [UInt8.le_iff_toNat_le]
    exact Nat.not_le.mpr (Nat.lt_of_le_of_lt greatest (by decide))
  simp [Byte.toLower, notUpper]

theorem Text.ofNat_digits
    (number : Nat) :
    ∀ byte ∈ Text.ofNat number, Byte.isDigit byte = true := by
  intro byte member
  obtain ⟨digit, isMember, rfl⟩ := List.mem_map.mp member
  exact (Byte.of_digit (Nat.isDigit_of_mem_toDigits (by decide) (by decide) isMember)).1

theorem Text.ofNat_ne_nil
    (number : Nat) :
    Text.ofNat number ≠ [] := by
  rw [Text.ofNat, Ne, List.map_eq_nil_iff]
  exact Nat.toDigits_ne_nil

/-- The number that decimal digits spell. -/
theorem Integer.digitsFrom_map
    {digits : List Char}
    (areDigits : ∀ digit ∈ digits, digit.isDigit = true)
    (number : Nat) :
    Integer.digitsFrom (digits.map fun digit => UInt8.ofNat digit.toNat) number =
      some (Nat.ofDigitChars 10 digits number) := by
  induction digits generalizing number with
  | nil =>
      rfl
  | cons digit digits inductionHypothesis =>
      obtain ⟨isDigit, isCode⟩ := Byte.of_digit (areDigits digit (by simp))
      rw [List.map_cons, Integer.digitsFrom, if_pos isDigit, isCode,
        inductionHypothesis fun other member => areDigits other (by simp [member])]
      rw [Nat.mul_comm number 10]
      rfl

/-- The digits of a number spell it. -/
theorem Integer.natural?_ofNat
    (number : Nat) :
    Integer.natural? (Text.ofNat number) = some number := by
  rw [Integer.natural?, if_neg (by simpa using Text.ofNat_ne_nil number), Text.ofNat,
    Integer.digitsFrom_map
      (fun _ member => Nat.isDigit_of_mem_toDigits (by decide) (by decide) member),
    Nat.ofDigitChars_toDigits (by decide) (by decide)]

/-- Zeros in front do not change the number that digits spell. -/
theorem Integer.digitsFrom_zeros
    (count : Nat)
    (digits : Text) :
    Integer.digitsFrom (List.replicate count Byte.zero ++ digits) 0 =
      Integer.digitsFrom digits 0 := by
  induction count with
  | zero =>
      rfl
  | succ count inductionHypothesis =>
      rw [List.replicate_succ, List.cons_append, Integer.digitsFrom, if_pos (by decide)]
      exact inductionHypothesis

/-- Padded digits of a number spell it, also where they are more than the width asks for. -/
theorem Integer.natural?_ofNatPadded
    (width number : Nat) :
    Integer.natural? (Text.ofNatPadded width number) = some number := by
  have plain := Integer.natural?_ofNat number
  rw [Integer.natural?, if_neg (by simpa using Text.ofNat_ne_nil number)] at plain
  rw [Integer.natural?, if_neg (by simp [Text.ofNatPadded, Text.ofNat_ne_nil]), Text.ofNatPadded,
    Integer.digitsFrom_zeros, plain]

/-- Digits alone are read as a natural number. -/
theorem Integer.read?_digits
    {text : Text}
    (digits : ∀ byte ∈ text, Byte.isDigit byte = true) :
    Integer.read? text = (Integer.natural? text).bind fun number =>
      if number < Integer.limit then some (Int64.ofInt number) else none := by
  rw [Integer.read?.eq_def]
  split
  case h_1 => exact absurd (digits Byte.minus List.mem_cons_self) (by decide)
  case h_2 => exact absurd (digits Byte.plus List.mem_cons_self) (by decide)
  case h_3 => cases shape : Integer.natural? text <;> simp [Integer.read?.unsigned?, shape]

/-- The text of a number in range is read as that number. -/
theorem Integer.read?_ofNat
    {number : Nat}
    (small : number < Integer.limit) :
    Integer.read? (Text.ofNat number) = some (Int64.ofInt number) := by
  rw [Integer.read?_digits (Text.ofNat_digits number), Integer.natural?_ofNat, Option.bind_some,
    if_pos small]

/-- Digits behind a minus are read as a negative number. -/
theorem Integer.read?_minus
    (digits : Text) :
    Integer.read? (Byte.minus :: digits) = (Integer.natural? digits).bind fun number =>
      if number ≤ Integer.limit then some (Int64.ofInt (-number)) else none := by
  rw [Integer.read?.eq_def]
  split
  case h_1 shape =>
    cases shape
    cases Integer.natural? digits <;> rfl
  case h_2 shape => exact absurd (List.cons.inj shape).1 (by decide)
  case h_3 unsigned _ => exact absurd rfl (unsigned digits)

/-- The text of an integer is read as that integer, if it fits. -/
theorem Integer.read?_ofInt
    (number : Int) :
    Integer.read? (Text.ofInt number) =
      if -(Integer.limit : Int) ≤ number ∧ number < Integer.limit then some (Int64.ofInt number)
      else none := by
  rw [Text.ofInt]
  split
  case isTrue negative =>
    have isNumber : -(number.natAbs : Int) = number := by
      omega
    have sameRange : number.natAbs ≤ Integer.limit ↔
        -(Integer.limit : Int) ≤ number ∧ number < Integer.limit := by
      omega
    rw [Integer.read?_minus, Integer.natural?_ofNat, Option.bind_some, isNumber]
    exact if_congr sameRange rfl rfl
  case isFalse natural =>
    have isNumber : (number.natAbs : Int) = number := by
      omega
    have sameRange : number.natAbs < Integer.limit ↔
        -(Integer.limit : Int) ≤ number ∧ number < Integer.limit := by
      omega
    rw [Integer.read?_digits (Text.ofNat_digits _), Integer.natural?_ofNat, Option.bind_some,
      isNumber]
    exact if_congr sameRange rfl rfl

/-- An integer of 64 bits fits. -/
theorem Integer.read?_text
    (number : Int64) :
    Integer.read? (Integer.text number) = some number := by
  have fits : -(Integer.limit : Int) ≤ number.toInt ∧ number.toInt < Integer.limit :=
    ⟨number.le_toInt, number.toInt_lt⟩
  rw [Integer.text, Integer.read?_ofInt, if_pos fits, Int64.ofInt_toInt]

/-! ## Blanks around a text -/

/-- A byte that is a character by itself, and no blank one. -/
def Byte.IsInk (byte : UInt8) : Prop :=
  byte < 0x80 ∧ Rune.isBlankCode byte.toNat = false

theorem Byte.IsInk.of_digit
    {byte : UInt8}
    (isDigit : Byte.isDigit byte = true) :
    Byte.IsInk byte := by
  rw [Byte.isDigit, Bool.and_eq_true, decide_eq_true_iff, decide_eq_true_iff,
    UInt8.le_iff_toNat_le, UInt8.le_iff_toNat_le] at isDigit
  obtain ⟨least, greatest⟩ : 48 ≤ byte.toNat ∧ byte.toNat ≤ 57 := isDigit
  refine ⟨UInt8.lt_iff_toNat_lt.mpr (Nat.lt_of_le_of_lt greatest (by decide)), ?_⟩
  simp only [Rune.isBlankCode, Bool.or_eq_false_iff, Bool.and_eq_false_iff, decide_eq_false_iff_not,
    beq_eq_false_iff_ne]
  omega

theorem Text.trimFront_of_ink
    {byte : UInt8}
    (ink : Byte.IsInk byte)
    (rest : Text)
    (bound : Nat) :
    Text.trimFront Rune.isBlank bound (byte :: rest) = byte :: rest := by
  cases bound with
  | zero => rfl
  | succ bound =>
      simp [Text.trimFront, Rune.first?, ink.1, Rune.isBlank, ink.2]

theorem Text.trimBack_of_ink
    {byte : UInt8}
    (ink : Byte.IsInk byte)
    (before : Text)
    (bound : Nat) :
    Text.trimBack Rune.isBlank bound (byte :: before) = byte :: before := by
  cases bound with
  | zero => rfl
  | succ bound =>
      simp [Text.trimBack, Rune.last?, ink.1, Rune.isBlank, ink.2]

/-- Nothing is stripped from a text without blanks. -/
theorem Text.strip_of_ink
    {text : Text}
    (ink : ∀ byte ∈ text, Byte.IsInk byte) :
    text.strip = text := by
  have front : Text.trimLeftIf Rune.isBlank text = text := by
    cases text with
    | nil => rfl
    | cons byte rest => exact Text.trimFront_of_ink (ink byte (by simp)) rest _
  have back : Text.trimRightIf Rune.isBlank text = text := by
    rw [Text.trimRightIf]
    cases reversed : text.reverse with
    | nil =>
        rw [List.reverse_eq_nil_iff.mp reversed]
        rfl
    | cons byte before =>
        have member : byte ∈ text := by
          rw [← List.mem_reverse, reversed]
          exact List.mem_cons_self
        rw [Text.trimBack_of_ink (ink byte member), ← reversed, List.reverse_reverse]
  rw [Text.strip, front, back]

/-- The text of an integer has no blanks. -/
theorem Text.strip_ofInt
    (number : Int) :
    (Text.ofInt number).strip = Text.ofInt number := by
  refine Text.strip_of_ink fun byte member => ?_
  rw [Text.ofInt] at member
  split at member
  · rcases List.mem_cons.mp member with rfl | isDigit
    · exact ⟨by decide, by decide⟩
    · exact .of_digit (Text.ofNat_digits _ byte isDigit)
  · exact .of_digit (Text.ofNat_digits _ byte member)

theorem Integer.strip_text
    (number : Int64) :
    (Integer.text number).strip = Integer.text number :=
  Text.strip_ofInt _

/-- The text of an integer reads back as that integer. -/
theorem Text.toInt?_text
    (number : Int64) :
    (Integer.text number).toInt? = some number := by
  rw [Text.toInt?, Integer.strip_text]
  simp only [Integer.read?_text]

/-- A text that reads as an integer counts as that integer. -/
theorem Text.toNumber_of_read?
    {text : Text}
    {number : Int64}
    (reads : Integer.read? text.strip = some number) :
    text.toNumber = .int number := by
  simp only [Text.toNumber, reads]

/-- The text of an integer counts as that integer. -/
theorem Text.toNumber_text
    (number : Int64) :
    (Integer.text number).toNumber = .int number := by
  refine Text.toNumber_of_read? ?_
  rw [Integer.strip_text, Integer.read?_text]

end LittleScript
