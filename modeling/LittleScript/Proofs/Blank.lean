import LittleScript.Source.Blank

namespace LittleScript

/-!
# Skipping blanks step by step

The skipper of blanks looks at most three bytes ahead.  Its equations are stated here once for each
state of the blank stretch, together with what it does before a byte that starts a word.
-/

/-- A property of bytes holds when it holds of every code. -/
theorem Byte.of_codes
    {property : UInt8 → Prop}
    (all : ∀ code : Fin 256, property (.ofFin code))
    (byte : UInt8) :
    property byte :=
  all byte.toFin

namespace Source

/-- A line break is a separator and opens nothing. -/
theorem isLineBreak_facts
    {byte : UInt8}
    (lineBreak : isLineBreak byte = true) :
    byte ≠ Byte.hash ∧ byte ≠ Byte.backslash ∧ Byte.isSeparator byte = true := by
  simp only [isLineBreak, Bool.or_eq_true, beq_iff_eq] at lineBreak
  rcases lineBreak with rfl | rfl <;> decide

/-- A blank byte opens nothing. -/
theorem isSpace_facts
    {byte : UInt8}
    (space : Byte.isSpace byte = true) :
    byte ≠ Byte.hash ∧ byte ≠ Byte.backslash := by
  revert byte
  apply Byte.of_codes
  decide +kernel

/-- A separator opens nothing and does not belong to a bare run. -/
theorem isSeparator_facts
    {byte : UInt8}
    (separator : Byte.isSeparator byte = true) :
    byte ≠ Byte.hash ∧ byte ≠ Byte.backslash := by
  simp only [Byte.isSeparator, Bool.or_eq_true, beq_iff_eq] at separator
  rcases separator with (rfl | rfl) | rfl <;> decide

/-- One byte opens no block comment. -/
@[simp] theorem opensBlock_singleton
    (byte : UInt8) :
    opensBlock [byte] = false := by
  rw [opensBlock.eq_def]
  split <;> simp_all

/-- Inside a block comment only the mark that ends it counts. -/
theorem skipFrom_block_cons
    (acrossLines : Bool)
    (start : Nat)
    (byte : UInt8)
    (rest : Text)
    (offset : Nat) :
    skipFrom acrossLines (.block start) (byte :: rest) offset =
      if opensBlock (byte :: rest) then skipFrom acrossLines .plain rest.tail (offset + 2)
      else skipFrom acrossLines (.block start) rest (offset + 1) := by
  cases rest with
  | nil =>
      simp [skipFrom]
  | cons next after =>
      rw [skipFrom]
      rfl

/-- Outside comments the first byte decides how the blank stretch goes on. -/
theorem skipFrom_cons
    (acrossLines : Bool)
    (state : BlankState)
    (byte : UInt8)
    (rest : Text)
    (offset : Nat)
    (isOpen : state = .plain ∨ state = .joined) :
    skipFrom acrossLines state (byte :: rest) offset =
      if byte == Byte.hash then
        if opensBlock (byte :: rest) then
          skipFrom acrossLines (.block offset) rest.tail (offset + 2)
        else skipFrom acrossLines .comment rest (offset + 1)
      else if byte == Byte.backslash && (rest.head?.any isLineBreak) then
        skipFrom acrossLines .joined rest (offset + 1)
      else if state == .joined && isLineBreak byte then
        skipFrom acrossLines .joined rest (offset + 1)
      else if Byte.isSeparator byte then
        if acrossLines then skipFrom acrossLines .plain rest (offset + 1)
        else ⟨⟨byte :: rest, offset⟩, none⟩
      else if Byte.isSpace byte then skipFrom acrossLines .plain rest (offset + 1)
      else ⟨⟨byte :: rest, offset⟩, none⟩ := by
  rcases isOpen with rfl | rfl <;> cases rest <;> rw [skipFrom.eq_def] <;> simp

/-- At the end of the text an ordinary blank stretch ends. -/
@[simp] theorem skipFrom_plain_nil
    (acrossLines : Bool)
    (offset : Nat) :
    skipFrom acrossLines .plain [] offset = ⟨⟨[], offset⟩, none⟩ := by
  rfl

/-- A byte that neither belongs to a blank stretch nor ends a command. -/
def startsWord (byte : UInt8) : Bool :=
  !Byte.isSpace byte && !Byte.isSeparator byte && byte != Byte.hash && byte != Byte.backslash

/-- No blank stretch stands before a byte that starts a word. -/
theorem skipFrom_of_startsWord
    (acrossLines : Bool)
    {byte : UInt8}
    (rest : Text)
    (offset : Nat)
    (starts : startsWord byte = true) :
    skipFrom acrossLines .plain (byte :: rest) offset = ⟨⟨byte :: rest, offset⟩, none⟩ := by
  simp only [startsWord, Bool.and_eq_true, Bool.not_eq_true', bne_iff_ne] at starts
  obtain ⟨⟨⟨notSpace, notSeparator⟩, notHash⟩, notBackslash⟩ := starts
  rw [skipFrom_cons _ _ _ _ _ (.inl rfl)]
  simp [notSpace, notSeparator, notHash, notBackslash]

/-- A space is skipped. -/
theorem skipFrom_space
    (acrossLines : Bool)
    (rest : Text)
    (offset : Nat) :
    skipFrom acrossLines .plain (Byte.space :: rest) offset =
      skipFrom acrossLines .plain rest (offset + 1) := by
  rw [skipFrom_cons _ _ _ _ _ (.inl rfl)]
  rfl

end Source

end LittleScript
