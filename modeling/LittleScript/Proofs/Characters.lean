import LittleScript.Text.Trim
import Mathlib.Data.List.DropRight

namespace LittleScript

/-!
# Characters and their bytes

A code point that has bytes of its own is read back from them, from the front of a text and from
its back.  So a text that is made of such characters is decoded to them, and trimming it drops
characters from its ends and never single bytes.
-/

namespace Rune

/-- Whether a code point has bytes of its own: it lies in a plane and is no surrogate. -/
def IsScalar (code : Nat) : Prop :=
  code < 0x110000 ∧ ¬(0xd800 ≤ code ∧ code ≤ 0xdfff)

/-- A small number is that of a byte. -/
theorem exists_byte
    {value : Nat}
    (small : value < 256) :
    ∃ byte : UInt8, UInt8.ofNat value = byte ∧ byte.toNat = value :=
  ⟨_, rfl, by simp [Nat.mod_eq_of_lt small]⟩

theorem isContinuation_iff
    (byte : UInt8) :
    isContinuation byte = true ↔ 0x80 ≤ byte.toNat ∧ byte.toNat ≤ 0xbf := by
  simp [isContinuation, UInt8.le_iff_toNat_le]

/-- The second bytes that may follow the first byte of a long sequence, as numbers. -/
theorem follows_iff_toNat
    (first second : UInt8) :
    follows first second = true ↔
      0x80 ≤ second.toNat ∧ second.toNat ≤ 0xbf ∧
        (first.toNat = 0xe0 → 0xa0 ≤ second.toNat) ∧
        (first.toNat = 0xed → second.toNat ≤ 0x9f) ∧
        (first.toNat = 0xf0 → 0x90 ≤ second.toNat) ∧
        (first.toNat = 0xf4 → second.toNat ≤ 0x8f) := by
  simp only [follows, secondRange, Bool.and_eq_true, decide_eq_true_eq, UInt8.le_iff_toNat_le,
    beq_iff_eq, ← UInt8.toNat_inj]
  split_ifs <;> simp only [UInt8.reduceToNat] at * <;> omega

/-- A code point is read from the front of its bytes, whatever follows them. -/
theorem first?_encode
    {code : Nat}
    (scalar : IsScalar code)
    (rest : Text) :
    first? (encode code ++ rest) = some ⟨code, (encode code).length⟩ := by
  obtain ⟨inPlane, noSurrogate⟩ := scalar
  unfold encode
  split_ifs with one two three surrogate
  · obtain ⟨lead, isLead, leadNat⟩ := exists_byte (show code < 256 by omega)
    simp only [isLead, List.cons_append, List.nil_append, first?, UInt8.lt_iff_toNat_lt]
    rw [if_pos (by simp; omega)]
    simp [leadNat]
  · obtain ⟨lead, isLead, leadNat⟩ := exists_byte (show 0xc0 + code / 64 < 256 by omega)
    obtain ⟨second, isSecond, secondNat⟩ := exists_byte (show 0x80 + code % 64 < 256 by omega)
    have continues : isContinuation second = true := by rw [isContinuation_iff]; omega
    simp only [isLead, isSecond, List.cons_append, List.nil_append, first?, UInt8.lt_iff_toNat_lt,
      UInt8.le_iff_toNat_le, continues, payload]
    rw [if_neg (by simp; omega), if_pos (by simp; omega)]
    simp
    omega
  · simp at surrogate
    omega
  · obtain ⟨lead, isLead, leadNat⟩ := exists_byte (show 0xe0 + code / 4096 < 256 by omega)
    obtain ⟨second, isSecond, secondNat⟩ :=
      exists_byte (show 0x80 + code / 64 % 64 < 256 by omega)
    obtain ⟨third, isThird, thirdNat⟩ := exists_byte (show 0x80 + code % 64 < 256 by omega)
    have allowed : follows lead second = true := by rw [follows_iff_toNat]; omega
    have continues : isContinuation third = true := by rw [isContinuation_iff]; omega
    simp only [isLead, isSecond, isThird, List.cons_append, List.nil_append, first?,
      UInt8.lt_iff_toNat_lt, UInt8.le_iff_toNat_le, allowed, continues, payload]
    rw [if_neg (by simp; omega), if_neg (by simp; omega), if_pos (by simp; omega)]
    simp
    omega
  · obtain ⟨lead, isLead, leadNat⟩ := exists_byte (show 0xf0 + code / 262144 < 256 by omega)
    obtain ⟨second, isSecond, secondNat⟩ :=
      exists_byte (show 0x80 + code / 4096 % 64 < 256 by omega)
    obtain ⟨third, isThird, thirdNat⟩ := exists_byte (show 0x80 + code / 64 % 64 < 256 by omega)
    obtain ⟨fourth, isFourth, fourthNat⟩ := exists_byte (show 0x80 + code % 64 < 256 by omega)
    have allowed : follows lead second = true := by rw [follows_iff_toNat]; omega
    have continues : isContinuation third = true := by rw [isContinuation_iff]; omega
    have ends : isContinuation fourth = true := by rw [isContinuation_iff]; omega
    simp only [isLead, isSecond, isThird, isFourth, List.cons_append, List.nil_append, first?,
      UInt8.lt_iff_toNat_lt, UInt8.le_iff_toNat_le, allowed, continues, ends, payload]
    rw [if_neg (by simp; omega), if_neg (by simp; omega), if_neg (by simp; omega),
      if_pos (by simp; omega)]
    simp
    omega

/-- A character that is read from a text is one with bytes of its own. -/
theorem scalar_of_first?
    {text : Text}
    {rune : Rune}
    (read : first? text = some rune) :
    IsScalar rune.code := by
  have ofReplacement : IsScalar replacement.code := by simp [IsScalar, replacement]
  unfold first? at read
  split at read
  · cases read
  rename_i lead rest
  have inByte := lead.toNat_lt
  split_ifs at read with one two three four
  · cases read
    simp only [UInt8.lt_iff_toNat_lt, UInt8.reduceToNat] at one
    constructor <;> dsimp only <;> omega
  · split at read
    · split_ifs at read with continues
      · cases read
        constructor <;> simp only [payload] <;> omega
      · cases read
        exact ofReplacement
    · cases read
      exact ofReplacement
  · split at read
    · split_ifs at read with allowed
      · cases read
        simp only [Bool.and_eq_true, follows_iff_toNat, decide_eq_true_eq,
          UInt8.le_iff_toNat_le, UInt8.reduceToNat] at allowed three
        constructor <;> simp only [payload] <;> omega
      · cases read
        exact ofReplacement
    · cases read
      exact ofReplacement
  · split at read
    · split_ifs at read with allowed
      · cases read
        simp only [Bool.and_eq_true, follows_iff_toNat, decide_eq_true_eq,
          UInt8.le_iff_toNat_le, UInt8.reduceToNat] at allowed four
        constructor <;> simp only [payload] <;> omega
      · cases read
        exact ofReplacement
    · cases read
      exact ofReplacement
  · cases read
    exact ofReplacement

/-- The characters of a text are ones with bytes of their own. -/
theorem scalar_of_mem_decode
    {text : Text}
    {rune : Rune}
    (member : rune ∈ decode text) :
    IsScalar rune.code := by
  have collected : ∀ (skip : Nat) (text : Text) (done : List Rune),
      (∀ rune ∈ done, IsScalar rune.code) →
      ∀ rune ∈ decodeFrom skip text done, IsScalar rune.code := by
    intro skip text done
    fun_induction decodeFrom skip text done with
    | case1 => simp
    | case2 _ _ _ _ inductionHypothesis => exact inductionHypothesis
    | case3 done byte rest read isRead inductionHypothesis =>
        intro scalars
        exact inductionHypothesis (List.forall_mem_cons.mpr ⟨scalar_of_first? isRead, scalars⟩)
    | case4 => simp
  exact collected 0 text [] (by simp) rune member

theorem encode_ne_nil
    (code : Nat) :
    encode code ≠ [] := by
  unfold encode
  split_ifs <;> simp [encode.encodeReplacement]

/-- The bytes of a code point: a first byte, and up to three that continue it. -/
theorem encode_shape
    {code : Nat}
    (scalar : IsScalar code) :
    (∃ byte, encode code = [byte] ∧ byte < 0x80) ∨
      ∃ lead middle last, encode code = lead :: (middle ++ [last]) ∧
        middle.length ≤ 2 ∧ isContinuation lead = false ∧
        ∀ byte ∈ middle ++ [last], isContinuation byte = true := by
  obtain ⟨inPlane, noSurrogate⟩ := scalar
  have continued : ∀ value, isContinuation (UInt8.ofNat (0x80 + value % 64)) = true := by
    intro value
    obtain ⟨byte, isByte, byteNat⟩ := exists_byte (show 0x80 + value % 64 < 256 by omega)
    rw [isByte, isContinuation_iff]
    omega
  have leading : ∀ value, 0xc0 ≤ value → value < 256 →
      isContinuation (UInt8.ofNat value) = false := by
    intro value great small
    obtain ⟨byte, isByte, byteNat⟩ := exists_byte small
    rw [isByte, Bool.eq_false_iff, Ne, isContinuation_iff]
    omega
  unfold encode
  split_ifs with one two three surrogate
  · obtain ⟨byte, isByte, byteNat⟩ := exists_byte (show code < 256 by omega)
    refine .inl ⟨byte, by rw [isByte], ?_⟩
    simp only [UInt8.lt_iff_toNat_lt, UInt8.reduceToNat]
    omega
  · exact .inr ⟨_, [], _, rfl, by simp, leading _ (by omega) (by omega),
      by simp only [List.nil_append, List.forall_mem_cons, continued]; simp⟩
  · simp only [Bool.and_eq_true, decide_eq_true_eq] at surrogate
    exact absurd surrogate noSurrogate
  · exact .inr ⟨_, [_], _, rfl, by simp, leading _ (by omega) (by omega),
      by simp only [List.cons_append, List.nil_append, List.forall_mem_cons, continued]; simp⟩
  · exact .inr ⟨_, [_, _], _, rfl, by simp, leading _ (by omega) (by omega),
      by simp only [List.cons_append, List.nil_append, List.forall_mem_cons, continued]; simp⟩

/-- A code point is read from the end of its bytes, whatever precedes them. -/
theorem last?_encode
    {code : Nat}
    (scalar : IsScalar code)
    (before : Text) :
    last? ((encode code).reverse ++ before) = some ⟨code, (encode code).length⟩ := by
  have whole : ofGroup (encode code) = ⟨code, (encode code).length⟩ := by
    have read := first?_encode scalar []
    rw [List.append_nil] at read
    simp [ofGroup, read]
  rcases encode_shape scalar with
    ⟨byte, bytes, ascii⟩ | ⟨lead, middle, last, bytes, short, notContinued, continues⟩
  · have read := first?_encode scalar before
    rw [bytes] at read ⊢
    simpa [first?, last?, ascii] using read
  · have high : ¬last < 0x80 := by
      have isLast := continues last (by simp)
      rw [isContinuation_iff] at isLast
      simp only [UInt8.lt_iff_toNat_lt, UInt8.reduceToNat]
      omega
    rw [bytes] at whole ⊢
    match middle, short with
    | [], _ => simpa [last?, high, notContinued] using whole
    | [second], _ =>
        have isSecond := continues second (by simp)
        simpa [last?, high, notContinued, isSecond] using whole
    | [second, third], _ =>
        have isSecond := continues second (by simp)
        have isThird := continues third (by simp)
        simpa [last?, high, notContinued, isSecond, isThird] using whole

theorem decodeFrom_skip
    (skipped rest : Text)
    (done : List Rune) :
    decodeFrom skipped.length (skipped ++ rest) done = decodeFrom 0 rest done := by
  induction skipped with
  | nil => rfl
  | cons byte skipped inductionHypothesis => simpa [decodeFrom] using inductionHypothesis

theorem decodeFrom_encode
    {codes : List Nat}
    (scalars : ∀ code ∈ codes, IsScalar code)
    (done : List Rune) :
    decodeFrom 0 (codes.flatMap encode) done =
      done.reverse ++ codes.map fun code => ⟨code, (encode code).length⟩ := by
  induction codes generalizing done with
  | nil => simp [decodeFrom]
  | cons code codes inductionHypothesis =>
      obtain ⟨scalar, scalars⟩ := List.forall_mem_cons.mp scalars
      have read := first?_encode scalar (codes.flatMap encode)
      obtain ⟨byte, more, bytes⟩ := List.exists_cons_of_ne_nil (encode_ne_nil code)
      rw [bytes, List.cons_append] at read
      rw [List.flatMap_cons, bytes, List.cons_append, decodeFrom]
      simp only [read, List.length_cons, Nat.add_sub_cancel]
      rw [decodeFrom_skip, inductionHypothesis scalars]
      simp [bytes]

/-- A text that is made of characters is decoded to them. -/
theorem decode_encode
    {codes : List Nat}
    (scalars : ∀ code ∈ codes, IsScalar code) :
    decode (codes.flatMap encode) = codes.map fun code => ⟨code, (encode code).length⟩ :=
  decodeFrom_encode scalars []

end Rune

namespace Text

open Rune (IsScalar encode)

/-- Trimming the front of a text drops characters. -/
theorem trimFront_encode
    (accept : Rune → Bool)
    {codes : List Nat}
    (scalars : ∀ code ∈ codes, IsScalar code) :
    ∀ bound, codes.length ≤ bound →
      trimFront accept bound (codes.flatMap encode) =
        (codes.dropWhile fun code => accept ⟨code, (encode code).length⟩).flatMap encode := by
  induction codes with
  | nil =>
      intro bound _
      cases bound <;> rfl
  | cons code codes inductionHypothesis =>
      intro bound enough
      obtain ⟨scalar, scalars⟩ := List.forall_mem_cons.mp scalars
      obtain ⟨bound, rfl⟩ := Nat.exists_eq_add_one_of_ne_zero (Nat.ne_zero_of_lt enough)
      have read := Rune.first?_encode scalar (codes.flatMap encode)
      rw [List.flatMap_cons, trimFront]
      simp only [read, List.drop_left, List.dropWhile_cons]
      split
      · exact inductionHypothesis scalars bound (Nat.le_of_succ_le_succ enough)
      · rfl

/-- Trimming the end of a text, given in reverse, drops characters. -/
theorem trimBack_encode
    (accept : Rune → Bool)
    {codes : List Nat}
    (scalars : ∀ code ∈ codes, IsScalar code) :
    ∀ bound, codes.length ≤ bound →
      trimBack accept bound (codes.flatMap fun code => (encode code).reverse) =
        (codes.dropWhile fun code => accept ⟨code, (encode code).length⟩).flatMap
          fun code => (encode code).reverse := by
  induction codes with
  | nil =>
      intro bound _
      cases bound <;> rfl
  | cons code codes inductionHypothesis =>
      intro bound enough
      obtain ⟨scalar, scalars⟩ := List.forall_mem_cons.mp scalars
      obtain ⟨bound, rfl⟩ := Nat.exists_eq_add_one_of_ne_zero (Nat.ne_zero_of_lt enough)
      have read := Rune.last?_encode scalar (codes.flatMap fun code => (encode code).reverse)
      have dropped (before : Text) :
          ((encode code).reverse ++ before).drop (encode code).length = before := by
        rw [← List.length_reverse, List.drop_left]
      rw [List.flatMap_cons, trimBack]
      simp only [read, dropped, List.dropWhile_cons]
      split
      · exact inductionHypothesis scalars bound (Nat.le_of_succ_le_succ enough)
      · rfl

theorem length_le_encode
    (codes : List Nat) :
    codes.length ≤ (codes.flatMap encode).length := by
  induction codes with
  | nil => exact Nat.le_refl 0
  | cons code codes inductionHypothesis =>
      have bytes := List.length_pos_of_ne_nil (Rune.encode_ne_nil code)
      rw [List.flatMap_cons, List.length_append, List.length_cons]
      omega

/-- Stripping a text drops blank characters at its ends. -/
theorem strip_encode
    {codes : List Nat}
    (scalars : ∀ code ∈ codes, IsScalar code) :
    strip (codes.flatMap encode) =
      ((codes.dropWhile Rune.isBlankCode).rdropWhile Rune.isBlankCode).flatMap encode := by
  have left : trimLeftIf Rune.isBlank (codes.flatMap encode) =
      (codes.dropWhile Rune.isBlankCode).flatMap encode :=
    trimFront_encode Rune.isBlank scalars _ (length_le_encode codes)
  have kept : ∀ code ∈ (codes.dropWhile Rune.isBlankCode).reverse, IsScalar code :=
    fun code member =>
      scalars code ((List.dropWhile_suffix _).subset (List.mem_reverse.mp member))
  have reversed : ∀ codes : List Nat, (codes.flatMap encode).reverse =
      codes.reverse.flatMap fun code => (encode code).reverse := by
    intro codes
    rw [List.reverse_flatMap]
    rfl
  have right := trimBack_encode Rune.isBlank kept
    ((codes.dropWhile Rune.isBlankCode).flatMap encode).length (by
      rw [List.length_reverse]
      exact length_le_encode _)
  rw [strip, left, trimRightIf, reversed, right, List.rdropWhile]
  rw [← List.reverse_reverse (List.dropWhile _ _), ← reversed, List.reverse_reverse]
  rfl

end Text

end LittleScript
