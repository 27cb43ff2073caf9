import LittleScript.Proofs.Blank
import LittleScript.Proofs.Evaluation
import LittleScript.Script.Words

namespace LittleScript

/-!
# Reading words step by step

What a reader does at a cursor whose next part is known: a bare run, braces without braces inside,
or a quoted escape.  A word then is read part by part, up to where a word ends.
-/

open Source (Cursor)

/-- A byte that is no brace, so that it stands for itself between braces. -/
def isUnbraced (byte : UInt8) : Bool :=
  byte != Byte.openBrace && byte != Byte.closeBrace

/-- Whether a word ends at a cursor: the text does, or a blank or a separator follows. -/
def endsWord (cursor : Cursor) : Bool :=
  cursor.isDone || cursor.isOn Byte.isSpace || cursor.isOn Byte.isSeparator

@[simp] theorem endsWord_nil
    (offset : Nat) :
    endsWord ⟨[], offset⟩ = true :=
  rfl

@[simp] theorem endsWord_cons
    (byte : UInt8)
    (rest : Text)
    (offset : Nat) :
    endsWord ⟨byte :: rest, offset⟩ = (Byte.isSpace byte || Byte.isSeparator byte) :=
  rfl

/-- The braces around a stretch without braces end at the first closing brace. -/
theorem Source.bracesEnd?_of_unbraced
    {stretch : Text}
    (tail : Text)
    (unbraced : ∀ byte ∈ stretch, isUnbraced byte = true) :
    Source.bracesEnd? (stretch ++ Byte.closeBrace :: tail) = some (stretch, tail) := by
  have scanned : ∀ inside : Text,
      Source.balanced? Byte.openBrace Byte.closeBrace 0
          (stretch ++ Byte.closeBrace :: tail) inside =
        some (inside.reverse ++ stretch, tail) := by
    induction stretch with
    | nil =>
        intro inside
        rw [List.nil_append, Source.balanced?]
        simp [show (Byte.closeBrace == Byte.openBrace) = false by decide]
    | cons byte rest inductionHypothesis =>
        intro inside
        have first : isUnbraced byte = true := unbraced byte (by simp)
        simp only [isUnbraced, Bool.and_eq_true, bne_iff_ne] at first
        have later := inductionHypothesis
          (fun other member => unbraced other (by simp [member])) (byte :: inside)
        simp [Source.balanced?, first.1, first.2, later]
  simpa [Source.bracesEnd?] using scanned []

namespace Eval

variable {σ : Type}

/-- Skipping blanks leaves the machine as it is, unless a comment never ends. -/
theorem skipBlanks_apply
    {reader : Reader}
    {cursor after : Cursor}
    {machine : Machine σ}
    (skipped : Source.skipBlanks reader.acrossLines cursor = ⟨after, none⟩) :
    skipBlanks reader cursor machine = .ok after machine := by
  rw [skipBlanks]
  simp only [skipped]
  rfl

/-- There are no blanks to skip before a byte that starts a word. -/
theorem skipBlanks_of_startsWord
    (reader : Reader)
    {byte : UInt8}
    (rest : Text)
    (offset : Nat)
    (starts : Source.startsWord byte = true)
    (machine : Machine σ) :
    skipBlanks reader ⟨byte :: rest, offset⟩ machine = .ok ⟨byte :: rest, offset⟩ machine :=
  skipBlanks_apply (Source.skipFrom_of_startsWord reader.acrossLines rest offset starts)

/-- A brace part without braces inside is the text between the braces. -/
theorem part_brace
    (reader : Reader)
    (run : Run σ)
    (depth : Nat)
    {stretch : Text}
    (tail : Text)
    (offset : Nat)
    (machine : Machine σ)
    (unbraced : ∀ byte ∈ stretch, isUnbraced byte = true) :
    part reader run (depth + 1)
        ⟨Byte.openBrace :: (stretch ++ Byte.closeBrace :: tail), offset⟩ machine =
      .ok (stretch, ⟨tail, offset + (stretch.length + 2)⟩) machine := by
  rw [part, bind_of_ok (skipBlanks_of_startsWord reader _ offset (by decide) machine)]
  have notDollar : (Byte.openBrace == Byte.dollar) = false := by decide
  simp only [notDollar, beq_self_eq_true, bracePart,
    Source.bracesEnd?_of_unbraced tail unbraced]
  simp [Nat.add_assoc, Nat.add_comm 1]

/-- A quoted part that holds one escape is the byte that the escape stands for. -/
theorem part_quotedEscape
    (reader : Reader)
    (run : Run σ)
    (depth : Nat)
    (letter : UInt8)
    (tail : Text)
    (offset : Nat)
    (machine : Machine σ) :
    part reader run (depth + 1)
        ⟨Byte.doubleQuote :: Byte.backslash :: letter :: Byte.doubleQuote :: tail, offset⟩
        machine =
      .ok ([unescape letter], ⟨tail, offset + 4⟩) machine := by
  rw [part, bind_of_ok (skipBlanks_of_startsWord reader _ offset (by decide) machine)]
  have ran :
      quotedRun Byte.doubleQuote (Byte.backslash :: letter :: Byte.doubleQuote :: tail)
          (offset + 1) [] =
        ([unescape letter], ⟨Byte.doubleQuote :: tail, offset + 1 + 2⟩) := by
    rw [quotedRun, quotedRun.eq_def]
    · rfl
    · simp
  simp only [quotedPart, ran]
  rfl

/-- Where no blanks are skipped, a bare part is the longest run of bare bytes. -/
theorem part_bareRun
    (reader : Reader)
    (run : Run σ)
    (depth : Nat)
    {first : UInt8}
    {more rest : Text}
    (offset : Nat)
    (machine : Machine σ)
    (skipped : skipBlanks reader ⟨first :: more ++ rest, offset⟩ machine =
      .ok ⟨first :: more ++ rest, offset⟩ machine)
    (bare : ∀ byte ∈ first :: more, isBare byte = true)
    (ends : ∀ byte ∈ rest.head?, isBare byte = false) :
    part reader run (depth + 1) ⟨first :: more ++ rest, offset⟩ machine =
      .ok (first :: more, ⟨rest, offset + (more.length + 1)⟩) machine := by
  have noneTaken : rest.takeWhile isBare = [] := by
    cases rest with
    | nil =>
        rfl
    | cons byte after =>
        simp [ends byte (by simp)]
  have noneDropped : rest.dropWhile isBare = rest := by
    cases rest with
    | nil =>
        rfl
    | cons byte after =>
        simp [ends byte (by simp)]
  have taken : (first :: (more ++ rest)).takeWhile isBare = first :: more := by
    rw [← List.cons_append, List.takeWhile_append_of_pos bare, noneTaken, List.append_nil]
  have dropped : (first :: (more ++ rest)).dropWhile isBare = rest := by
    rw [← List.cons_append, List.dropWhile_append_of_pos bare, noneDropped]
  have firstBare := bare first (by simp)
  simp only [isBare, Byte.isSpecial, Bool.and_eq_true, Bool.not_eq_true',
    Bool.or_eq_false_iff] at firstBare
  rw [part, bind_of_ok skipped, List.cons_append]
  simp [taken, dropped, firstBare]

/-- A bare part is the longest run of bare bytes. -/
theorem part_bare
    (reader : Reader)
    (run : Run σ)
    (depth : Nat)
    {first : UInt8}
    {more rest : Text}
    (offset : Nat)
    (machine : Machine σ)
    (starts : Source.startsWord first = true)
    (bare : ∀ byte ∈ first :: more, isBare byte = true)
    (ends : ∀ byte ∈ rest.head?, isBare byte = false) :
    part reader run (depth + 1) ⟨first :: more ++ rest, offset⟩ machine =
      .ok (first :: more, ⟨rest, offset + (more.length + 1)⟩) machine :=
  part_bareRun reader run depth offset machine
    (skipBlanks_of_startsWord reader (more ++ rest) offset starts machine) bare ends

/-- A part before the end of a word completes the word. -/
theorem word_of_last
    {reader : Reader}
    {run : Run σ}
    {depth : Nat}
    (bound : Nat)
    {cursor after : Cursor}
    {value : Text}
    (done : Text)
    {machine final : Machine σ}
    (read : part reader run depth cursor machine = .ok (value, after) final)
    (moved : after.offset ≠ cursor.offset)
    (ends : endsWord after = true) :
    word reader run depth (bound + 1) cursor done machine =
      .ok (some (done.reverse ++ value, after)) final := by
  rw [word, bind_of_ok read]
  simp only [endsWord] at ends
  simp [-bind_pure_comp, moved, ends]

/-- A part inside a word is followed by the rest of the word. -/
theorem word_of_more
    {reader : Reader}
    {run : Run σ}
    {depth : Nat}
    (bound : Nat)
    {cursor after : Cursor}
    {value : Text}
    (done : Text)
    {machine final : Machine σ}
    (read : part reader run depth cursor machine = .ok (value, after) final)
    (moved : after.offset ≠ cursor.offset)
    (goesOn : endsWord after = false)
    (noError : final.interpreter.error = none) :
    word reader run depth (bound + 1) cursor done machine =
      word reader run depth bound after (value.reverse ++ done) final := by
  rw [word, bind_of_ok read]
  simp only [endsWord] at goesOn
  simp [moved, goesOn, noError]

end Eval

end LittleScript
