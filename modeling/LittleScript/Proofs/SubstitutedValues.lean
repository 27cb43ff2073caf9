import LittleScript.Proofs.WordParts
import LittleScript.Proofs.ListRoundTrip
import LittleScript.Proofs.TrailingBlank

namespace LittleScript

/-!
# Substituted values are opaque

A command line is written here as a syntax tree: words with spaces between them, and in each word a
bare run followed by literals in braces, quoted texts and substitutions.  What code nested in the
line returns is a value of the tree, not text of the line.  Reading the line yields one word for
each word of the tree, so that no byte of such a value is taken for a blank, a separator or a mark.
-/

open Source (Balanced Cursor)

variable {σ : Type}

/-! ## Command lines -/

/-- Code in a word: a command in brackets, or a variable with its name in braces. -/
inductive Substitution where
  | command (code : Text) (balanced : Balanced Byte.openBracket Byte.closeBracket code)
  | named (name : Text) (balanced : Balanced Byte.openBrace Byte.closeBrace name)

/-- A piece of quoted text. -/
inductive QuotedPiece where
  | plain (byte : UInt8)
      (stands : byte ≠ Byte.doubleQuote ∧ byte ≠ Byte.backslash ∧ byte ≠ Byte.dollar ∧
        byte ≠ Byte.openBracket)
  | escaped (byte : UInt8)
  | substituted (substitution : Substitution)

/-- A part of a word that is not bare. -/
inductive WrittenPart where
  | braces (inside : Text) (balanced : Balanced Byte.openBrace Byte.closeBrace inside)
  | quoted (pieces : List QuotedPiece)
  | substituted (substitution : Substitution)

/-- A word: a run of bare bytes that opens no comment and no escape, and parts behind it. -/
structure WrittenWord where
  bare : Text
  parts : List WrittenPart
  isBare : ∀ byte ∈ bare, LittleScript.isBare byte = true
  starts : ∀ byte ∈ bare.head?, byte ≠ Byte.hash ∧ byte ≠ Byte.backslash
  notEmpty : bare ≠ [] ∨ parts ≠ []

/-- A word behind one space or more. -/
structure SpacedWord where
  moreSpaces : Nat
  word : WrittenWord

/-- Words with spaces between them. -/
structure CommandLine where
  first : WrittenWord
  others : List SpacedWord

def Substitution.text : Substitution → Text
  | .command code _ => inBrackets code
  | .named name _ => Byte.dollar :: inBraces name

def QuotedPiece.text : QuotedPiece → Text
  | .plain byte _ => [byte]
  | .escaped byte => [Byte.backslash, byte]
  | .substituted substitution => substitution.text

def WrittenPart.text : WrittenPart → Text
  | .braces inside _ => inBraces inside
  | .quoted pieces =>
      Byte.doubleQuote :: (pieces.flatMap QuotedPiece.text ++ [Byte.doubleQuote])
  | .substituted substitution => substitution.text

def WrittenWord.text (word : WrittenWord) : Text :=
  word.bare ++ word.parts.flatMap WrittenPart.text

def SpacedWord.text (spaced : SpacedWord) : Text :=
  List.replicate (spaced.moreSpaces + 1) Byte.space ++ spaced.word.text

def CommandLine.text (line : CommandLine) : Text :=
  line.first.text ++ line.others.flatMap SpacedWord.text

def CommandLine.words (line : CommandLine) : List WrittenWord :=
  line.first :: line.others.map SpacedWord.word

/-! ## What is written yields -/

/-- The code that a substitution runs, given what a dollar expands to. -/
def Substitution.code (expansion : Text) : Substitution → Text
  | .command code _ => code
  | .named name _ => expansion ++ ListText.write [name]

/-- The value of a substitution is what its code returns, if that raises no error. -/
def Substitution.Yields (run : Run σ) (substitution : Substitution) (machine : Machine σ)
    (value : Text) (after : Machine σ) : Prop :=
  run (substitution.code machine.interpreter.dollar) false machine = .ok value after ∧
    after.interpreter.error = none

def QuotedPiece.Yields (run : Run σ) (piece : QuotedPiece) (machine : Machine σ) (value : Text)
    (after : Machine σ) : Prop :=
  match piece with
  | .plain byte _ => value = [byte] ∧ after = machine
  | .escaped byte => value = [unescape byte] ∧ after = machine
  | .substituted substitution => substitution.Yields run machine value after

def WrittenPart.Yields (run : Run σ) (part : WrittenPart) (machine : Machine σ) (value : Text)
    (after : Machine σ) : Prop :=
  match part with
  | .braces inside _ => value = inside ∧ after = machine
  | .quoted pieces =>
      ∃ values, InTurn (QuotedPiece.Yields run) pieces machine values after ∧
        value = values.flatten
  | .substituted substitution => substitution.Yields run machine value after

/-- The value of a word is its bare run and behind it the values of its parts. -/
def WrittenWord.Yields (run : Run σ) (word : WrittenWord) (machine : Machine σ) (value : Text)
    (after : Machine σ) : Prop :=
  ∃ values, InTurn (WrittenPart.Yields run) word.parts machine values after ∧
    value = word.bare ++ values.flatten

theorem QuotedPiece.Yields.noError
    {run : Run σ}
    {piece : QuotedPiece}
    {machine after : Machine σ}
    {value : Text}
    (yields : piece.Yields run machine value after)
    (noError : machine.interpreter.error = none) :
    after.interpreter.error = none := by
  cases piece with
  | plain | escaped =>
      obtain ⟨-, rfl⟩ := yields
      exact noError
  | substituted => exact yields.2

theorem WrittenPart.Yields.noError
    {run : Run σ}
    {part : WrittenPart}
    {machine after : Machine σ}
    {value : Text}
    (yields : part.Yields run machine value after)
    (noError : machine.interpreter.error = none) :
    after.interpreter.error = none := by
  cases part with
  | braces =>
      obtain ⟨-, rfl⟩ := yields
      exact noError
  | quoted =>
      obtain ⟨values, inTurn, -⟩ := yields
      exact inTurn.keeps (fun yields => yields.noError) noError
  | substituted => exact yields.2

theorem WrittenWord.Yields.noError
    {run : Run σ}
    {word : WrittenWord}
    {machine after : Machine σ}
    {value : Text}
    (yields : word.Yields run machine value after)
    (noError : machine.interpreter.error = none) :
    after.interpreter.error = none := by
  obtain ⟨values, inTurn, -⟩ := yields
  exact inTurn.keeps (fun yields => yields.noError) noError

/-! ## How what is written starts -/

/-- A part starts a word, and its first byte does not belong to a bare run. -/
theorem WrittenPart.text_starts
    (part : WrittenPart) :
    ∃ first rest, part.text = first :: rest ∧ Source.startsWord first = true ∧
      LittleScript.isBare first = false := by
  have mark : ∀ byte ∈ [Byte.openBrace, Byte.doubleQuote, Byte.openBracket, Byte.dollar],
      Source.startsWord byte = true ∧ LittleScript.isBare byte = false := by decide +kernel
  match part with
  | .braces inside _ => exact ⟨_, _, rfl, mark _ (by simp)⟩
  | .quoted pieces => exact ⟨_, _, rfl, mark _ (by simp)⟩
  | .substituted (.command code _) => exact ⟨_, _, rfl, mark _ (by simp)⟩
  | .substituted (.named name _) => exact ⟨_, _, rfl, mark _ (by simp)⟩

theorem startsWord_of_isBare
    {byte : UInt8}
    (bare : isBare byte = true)
    (starts : byte ≠ Byte.hash ∧ byte ≠ Byte.backslash) :
    Source.startsWord byte = true := by
  simp only [isBare, Byte.isSpecial, Bool.and_eq_true, Bool.not_eq_true',
    Bool.or_eq_false_iff] at bare
  have notSemicolon := bare.2.2
  have notSeparator : Byte.isSeparator byte = false := by
    have breaks : Byte.isSpace Byte.newline = true ∧ Byte.isSpace Byte.carriageReturn = true := by
      decide
    have notNewline : byte ≠ Byte.newline := fun same => by simp [same, breaks.1] at bare
    have notReturn : byte ≠ Byte.carriageReturn := fun same => by simp [same, breaks.2] at bare
    simp [Byte.isSeparator, notNewline, notReturn, notSemicolon]
  simp [Source.startsWord, bare.1, notSeparator, starts.1, starts.2]

theorem WrittenWord.text_starts
    (word : WrittenWord) :
    ∃ first rest, word.text = first :: rest ∧ Source.startsWord first = true := by
  cases bare : word.bare with
  | cons first rest =>
      have starts := startsWord_of_isBare (word.isBare first (by simp [bare]))
        (word.starts first (by simp [bare]))
      exact ⟨first, _, by rw [text, bare, List.cons_append], starts⟩
  | nil =>
      cases parts : word.parts with
      | nil => exact absurd word.notEmpty (by simp [bare, parts])
      | cons part others =>
          obtain ⟨first, rest, shape, starts, -⟩ := part.text_starts
          exact ⟨first, rest ++ others.flatMap WrittenPart.text,
            by simp [text, bare, parts, shape], starts⟩

namespace Eval

/-! ## Substitutions and quoted text -/

/-- A substitution is read as one part, whatever its code returns. -/
theorem Substitution.readsPart
    (reader : Reader)
    {run : Run σ}
    {substitution : Substitution}
    {machine after : Machine σ}
    {value : Text}
    (yields : substitution.Yields run machine value after)
    (rest : Text) :
    ReadsPart reader run substitution.text rest machine value after := by
  cases substitution with
  | command code balanced => exact readsPart_inBrackets reader balanced yields.1 rest
  | named name balanced =>
      intro bound offset enough
      simp only [Substitution.text, List.length_cons] at enough ⊢
      obtain ⟨bound, rfl⟩ : ∃ fewer, bound = fewer + 1 := ⟨bound - 1, by omega⟩
      have named := readsPart_inBraces reader run balanced rest machine bound (offset + 1)
        (by omega)
      rw [List.cons_append, part_of_startsWord reader run bound (by decide), partAt]
      simp only [beq_self_eq_true, if_true, dollarPart]
      rw [bind_of_ok named]
      simp only [inspect_bind_apply]
      have ran : run (machine.interpreter.dollar ++ ListText.write [name]) false machine =
          .ok value after := yields.1
      rw [bind_of_ok ran]
      simp [Nat.add_comm 1, Nat.add_assoc]

section Quoted

variable (reader : Reader) (run : Run σ) (names start bound : Nat)

theorem quotedPart_plain
    {byte : UInt8}
    (stands : byte ≠ Byte.doubleQuote ∧ byte ≠ Byte.backslash ∧ byte ≠ Byte.dollar ∧
      byte ≠ Byte.openBracket)
    (rest : Text)
    (offset : Nat)
    (done : Text) :
    quotedPart reader run (part reader run names) Byte.doubleQuote start (bound + 1)
        ⟨byte :: rest, offset⟩ done =
      quotedPart reader run (part reader run names) Byte.doubleQuote start (bound + 1)
        ⟨rest, offset + 1⟩ (byte :: done) := by
  rw [quotedPart, quotedPart, Source.quotedRun_cons]
  simp [stands]

theorem quotedPart_escaped
    (byte : UInt8)
    (rest : Text)
    (offset : Nat)
    (done : Text) :
    quotedPart reader run (part reader run names) Byte.doubleQuote start (bound + 1)
        ⟨Byte.backslash :: byte :: rest, offset⟩ done =
      quotedPart reader run (part reader run names) Byte.doubleQuote start (bound + 1)
        ⟨rest, offset + 2⟩ (unescape byte :: done) := by
  rw [quotedPart, quotedPart, Source.quotedRun_cons]
  rfl

theorem quotedPart_closed
    (rest : Text)
    (offset : Nat)
    (done : Text)
    (machine : Machine σ) :
    quotedPart reader run (part reader run names) Byte.doubleQuote start (bound + 1)
        ⟨Byte.doubleQuote :: rest, offset⟩ done machine =
      .ok (done.reverse, ⟨rest, offset + 1⟩) machine := by
  rw [quotedPart, Source.quotedRun_cons]
  rfl

/-- A part that stands in quoted text behind a dollar or a bracket goes into its value. -/
theorem quotedPart_part
    {byte : UInt8}
    (nested : byte = Byte.dollar ∨ byte = Byte.openBracket)
    {rest later value : Text}
    {offset stop : Nat}
    {machine between : Machine σ}
    (read : part reader run (names + 1) ⟨byte :: rest, offset⟩ machine =
      .ok (value, ⟨later, stop⟩) between)
    (noError : between.interpreter.error = none)
    (done : Text) :
    quotedPart reader run (part reader run names) Byte.doubleQuote start (bound + 1)
        ⟨byte :: rest, offset⟩ done machine =
      quotedPart reader run (part reader run names) Byte.doubleQuote start bound ⟨later, stop⟩
        (value.reverse ++ done) between := by
  have marks : (Byte.openBracket == Byte.dollar) = false ∧
      (Byte.openBracket == Byte.openBrace) = false ∧
      Source.startsWord Byte.dollar = true ∧ Source.startsWord Byte.openBracket = true := by
    decide
  have ran : quotedRun Byte.doubleQuote (byte :: rest) offset done =
      (done, ⟨byte :: rest, offset⟩) := by
    rw [Source.quotedRun_cons]
    rcases nested with rfl | rfl <;> rfl
  have noneFails : ∀ (first : Eval σ (Text × Cursor)) (ended : Text → Text)
      (next : Text → Cursor → Eval σ (Text × Cursor)),
      first machine = .ok (value, ⟨later, stop⟩) between →
      unlessFailed first ended next machine = next value ⟨later, stop⟩ between := by
    intro first ended next ranFirst
    rw [unlessFailed, bind_of_ok ranFirst]
    simp [noError]
  rw [quotedPart_of_run reader run (part reader run names) Byte.doubleQuote start bound ran]
  rcases nested with rfl | rfl
  · rw [part_of_startsWord reader run names marks.2.2.1, partAt] at read
    simp only [beq_self_eq_true, if_true] at read ⊢
    exact noneFails _ _ _ read
  · rw [part_of_startsWord reader run names marks.2.2.2, partAt] at read
    simp only [marks, beq_self_eq_true, Bool.false_eq_true, if_false, if_true] at read ⊢
    exact noneFails _ _ _ read

end Quoted

/-- The pieces of quoted text in turn are its value. -/
theorem quotedPart_of_pieces
    (reader : Reader)
    {run : Run σ}
    {pieces : List QuotedPiece}
    {machine after : Machine σ}
    {values : List Text}
    (yields : InTurn (QuotedPiece.Yields run) pieces machine values after)
    (rest : Text)
    (names start bound offset : Nat)
    (done : Text)
    (deep : (pieces.flatMap QuotedPiece.text).length ≤ names)
    (enough : (pieces.flatMap QuotedPiece.text).length < bound) :
    quotedPart reader run (part reader run names) Byte.doubleQuote start bound
        ⟨pieces.flatMap QuotedPiece.text ++ Byte.doubleQuote :: rest, offset⟩ done machine =
      .ok (done.reverse ++ values.flatten,
        ⟨rest, offset + (pieces.flatMap QuotedPiece.text).length + 1⟩) after := by
  induction yields generalizing bound offset done with
  | nil =>
      obtain ⟨bound, rfl⟩ : ∃ fewer, bound = fewer + 1 := ⟨bound - 1, by omega⟩
      simpa using quotedPart_closed reader run names start bound rest offset done _
  | @cons piece pieces value values machine between _ yields _ inductionHypothesis =>
      obtain ⟨bound, rfl⟩ : ∃ fewer, bound = fewer + 1 := ⟨bound - 1, by omega⟩
      rw [List.flatMap_cons, List.length_append] at deep enough
      rw [List.flatMap_cons, List.append_assoc, List.length_append]
      cases piece with
      | plain byte stands =>
          obtain ⟨rfl, rfl⟩ := yields
          simp only [QuotedPiece.text, List.length_singleton] at deep enough ⊢
          rw [List.singleton_append, quotedPart_plain reader run names start bound stands,
            inductionHypothesis (bound + 1) _ _ (by omega) (by omega)]
          simp [Nat.add_assoc, Nat.add_comm 1]
      | escaped byte =>
          obtain ⟨rfl, rfl⟩ := yields
          simp only [QuotedPiece.text, List.length_cons, List.length_nil] at deep enough ⊢
          rw [List.cons_append, List.singleton_append,
            quotedPart_escaped reader run names start bound byte,
            inductionHypothesis (bound + 1) _ _ (by omega) (by omega)]
          simp [Nat.add_assoc]
      | substituted substitution =>
          obtain ⟨byte, tail, shape, nested⟩ : ∃ byte tail, substitution.text = byte :: tail ∧
              (byte = Byte.dollar ∨ byte = Byte.openBracket) := by
            cases substitution with
            | command code => exact ⟨_, _, rfl, .inr rfl⟩
            | named name => exact ⟨_, _, rfl, .inl rfl⟩
          have read := Substitution.readsPart reader yields
            (pieces.flatMap QuotedPiece.text ++ Byte.doubleQuote :: rest) (names + 1) offset
            (by simp only [QuotedPiece.text] at deep; omega)
          simp only [QuotedPiece.text, shape, List.length_cons] at read deep enough ⊢
          rw [List.cons_append] at read ⊢
          rw [quotedPart_part reader run names start bound nested read yields.2,
            inductionHypothesis bound _ _ (by omega) (by omega)]
          simp [Nat.add_assoc]

/-! ## Parts and words -/

/-- A part is read as what it yields, whatever stands behind it. -/
theorem WrittenPart.readsPart
    (reader : Reader)
    {run : Run σ}
    {part : WrittenPart}
    {machine after : Machine σ}
    {value : Text}
    (yields : part.Yields run machine value after)
    (rest : Text) :
    ReadsPart reader run part.text rest machine value after := by
  cases part with
  | braces inside balanced =>
      obtain ⟨rfl, rfl⟩ := yields
      exact readsPart_inBraces reader run balanced rest _
  | quoted pieces =>
      obtain ⟨values, inTurn, rfl⟩ := yields
      intro bound offset enough
      simp only [WrittenPart.text, List.length_cons, List.length_append, List.length_nil]
        at enough ⊢
      obtain ⟨bound, rfl⟩ : ∃ fewer, bound = fewer + 1 := ⟨bound - 1, by omega⟩
      have marks : (Byte.doubleQuote == Byte.dollar) = false ∧
          (Byte.doubleQuote == Byte.openBrace) = false ∧
          (Byte.doubleQuote == Byte.openBracket) = false := by
        decide
      rw [List.cons_append, part_of_startsWord reader run bound (by decide), partAt]
      simp only [marks, beq_self_eq_true, Bool.true_or, Bool.false_eq_true, if_false, if_true,
        List.append_assoc, List.singleton_append]
      rw [quotedPart_of_pieces reader inTurn rest bound offset (bound + 1) (offset + 1) []
        (by omega) (by omega)]
      simp [Nat.add_assoc, Nat.add_comm 1]
  | substituted substitution => exact Substitution.readsPart reader yields rest

/-- Parts next to each other are read in turn. -/
theorem readsParts_of_yields
    (reader : Reader)
    {run : Run σ}
    {parts : List WrittenPart}
    {machine after : Machine σ}
    {values : List Text}
    (yields : InTurn (WrittenPart.Yields run) parts machine values after)
    (noError : machine.interpreter.error = none)
    (rest : Text)
    (present : parts ≠ []) :
    ReadsParts reader run rest (parts.map WrittenPart.text) machine values after := by
  refine readsParts_of_inTurn yields present noError ?_ (fun yields => yields.noError)
    fun part behind _ _ _ _ yields => WrittenPart.readsPart reader yields _
  intro part _
  obtain ⟨first, more, shape, starts, -⟩ := part.text_starts
  simp only [Source.startsWord, Bool.and_eq_true, Bool.not_eq_true'] at starts
  exact ⟨first, more, shape, starts.1.1⟩

/-- A word is read as what it yields. -/
theorem word_of_yields
    (reader : Reader)
    {run : Run σ}
    {written : WrittenWord}
    {machine after : Machine σ}
    {value : Text}
    (yields : written.Yields run machine value after)
    (noError : machine.interpreter.error = none)
    {rest : Text}
    (ends : ∀ offset, endsWord ⟨rest, offset⟩ = true)
    (depth bound offset : Nat)
    (deep : written.text.length ≤ depth)
    (enough : written.text.length ≤ bound) :
    word reader run depth bound ⟨written.text ++ rest, offset⟩ [] machine =
      .ok (some (value, ⟨rest, offset + written.text.length⟩)) after := by
  obtain ⟨values, inTurn, rfl⟩ := yields
  obtain ⟨bare, parts, isBare, starts, notEmpty⟩ := written
  simp only [WrittenWord.text] at deep enough ⊢
  suffices reads : ∃ texts all, texts.flatten = bare ++ parts.flatMap WrittenPart.text ∧
      all.flatten = bare ++ values.flatten ∧ ReadsParts reader run rest texts machine all after by
    obtain ⟨texts, all, sameText, sameValue, reads⟩ := reads
    rw [← sameText] at deep enough ⊢
    rw [reads.word ends depth bound offset [] deep enough, sameValue]
    rfl
  cases bare with
  | nil =>
      refine ⟨parts.map WrittenPart.text, values, ?_, rfl,
        readsParts_of_yields reader inTurn noError rest (by simpa using notEmpty)⟩
      rw [List.flatMap_def, List.nil_append]
  | cons first more =>
      have startsWord := startsWord_of_isBare (isBare first (by simp)) (starts first (by simp))
      have stays : ∀ (rest : Text) (offset : Nat),
          Source.skipFrom reader.acrossLines .plain (first :: (more ++ rest)) offset =
            ⟨⟨first :: (more ++ rest), offset⟩, none⟩ :=
        fun rest offset => Source.skipFrom_of_startsWord _ (more ++ rest) offset startsWord
      refine ⟨(first :: more) :: parts.map WrittenPart.text, (first :: more) :: values, ?_, rfl, ?_⟩
      · rw [List.flatten_cons, List.flatMap_def]
      cases inTurn with
      | nil =>
          exact .last (by simp) (readsPart_bare reader run isBare
            (isBare_eq_false_of_endsWord ends) (stays rest) _)
      | @cons part parts value values _ between _ yields later =>
          obtain ⟨byte, others, shape, startsPart, notBare⟩ := part.text_starts
          simp only [Source.startsWord, Bool.and_eq_true, Bool.not_eq_true'] at startsPart
          refine .more (by simp) (readsPart_bare reader run isBare ?_ (stays _) _) noError ?_
            (readsParts_of_yields reader (.cons yields later) noError rest (by simp))
          · simp [shape, notBare]
          · intro offset
            simp [shape, startsPart.1.1]

/-! ## Command lines -/

/-- Spaces are skipped up to a word, or to where the command ends. -/
theorem skipBlanks_spaces
    (reader : Reader)
    (spaces : Nat)
    (rest : Text)
    (stays : ∀ offset, Source.skipFrom reader.acrossLines .plain rest offset =
      ⟨⟨rest, offset⟩, none⟩)
    (offset : Nat)
    (machine : Machine σ) :
    skipBlanks reader ⟨List.replicate spaces Byte.space ++ rest, offset⟩ machine =
      .ok ⟨rest, offset + spaces⟩ machine := by
  apply skipBlanks_apply
  rw [Source.skipBlanks]
  induction spaces generalizing offset with
  | zero => exact stays offset
  | succ spaces inductionHypothesis =>
      rw [List.replicate_succ, List.cons_append, Source.skipFrom_space, inductionHypothesis,
        Nat.add_right_comm, Nat.add_assoc]

/-- Reading words stops where the command ends. -/
theorem wordsFrom_of_end
    (reader : Reader)
    (run : Run σ)
    (depth bound : Nat)
    {rest : Text}
    (ends : rest = [] ∨ reader.acrossLines = false ∧ Source.atBreak rest = true)
    (offset : Nat)
    (done : List Text)
    (machine : Machine σ) :
    wordsFrom reader run depth (bound + 1) ⟨rest, offset⟩ done machine =
      .ok (some (done.reverse, ⟨rest, offset⟩)) machine := by
  have atEnd : ((⟨rest, offset⟩ : Cursor).isDone ||
      (!reader.acrossLines && (⟨rest, offset⟩ : Cursor).isOn Byte.isSeparator)) = true := by
    rcases ends with rfl | ⟨lines, isAtBreak⟩
    · rfl
    · cases rest with
      | nil => rfl
      | cons byte rest =>
          have separator : Byte.isSeparator byte = true := isAtBreak
          simp [lines, Cursor.isOn, separator]
  rw [wordsFrom]
  simp [-bind_pure_comp, atEnd]

/-- Behind a word and blanks the next word is read. -/
theorem wordsFrom_of_word
    {reader : Reader}
    {run : Run σ}
    {depth bound : Nat}
    {first : UInt8}
    {rest : Text}
    {offset : Nat}
    (starts : Source.startsWord first = true)
    {machine between final : Machine σ}
    (noError : machine.interpreter.error = none)
    {value : Text}
    {behind next : Cursor}
    (read : word reader run depth depth ⟨first :: rest, offset⟩ [] machine =
      .ok (some (value, behind)) between)
    (skipped : skipBlanks reader behind between = .ok next final)
    (done : List Text) :
    wordsFrom reader run depth (bound + 1) ⟨first :: rest, offset⟩ done machine =
      wordsFrom reader run depth bound next (value :: done) final := by
  have goesOn : ((⟨first :: rest, offset⟩ : Cursor).isDone ||
      (!reader.acrossLines && (⟨first :: rest, offset⟩ : Cursor).isOn Byte.isSeparator)) =
        false := by
    simp only [Source.startsWord, Bool.and_eq_true, Bool.not_eq_true'] at starts
    simp [Cursor.isDone, Cursor.isOn, starts.1.1.2]
  rw [wordsFrom]
  simp only [goesOn, hasError_bind_apply, noError, Option.isSome_none, Bool.or_self,
    Bool.false_eq_true, if_false]
  rw [bind_of_ok read]
  simp only
  rw [bind_of_ok skipped]

/-- No blanks stand where a command ends. -/
theorem skipFrom_of_commandEnd
    {acrossLines : Bool}
    {rest : Text}
    (ends : rest = [] ∨ acrossLines = false ∧ Source.atBreak rest = true)
    (offset : Nat) :
    Source.skipFrom acrossLines .plain rest offset = ⟨⟨rest, offset⟩, none⟩ := by
  rcases ends with rfl | ⟨rfl, isAtBreak⟩
  · exact Source.skipFrom_plain_nil _ _
  · exact (Source.skipFrom_of_skips (Source.skips_of_atBreak isAtBreak) .plain offset rfl).trans
      (by simp)

/-- The words of a line in turn are read one by one. -/
theorem wordsFrom_of_yields
    (reader : Reader)
    (run : Run σ)
    {rest : Text}
    (ends : rest = [] ∨ reader.acrossLines = false ∧ Source.atBreak rest = true)
    (depth : Nat)
    (others : List SpacedWord) :
    ∀ (first : WrittenWord) (bound offset : Nat) (done values : List Text)
      (machine after : Machine σ),
      machine.interpreter.error = none →
      InTurn (WrittenWord.Yields run) (first :: others.map SpacedWord.word) machine values after →
      first.text.length + (others.flatMap SpacedWord.text).length ≤ depth →
      first.text.length + (others.flatMap SpacedWord.text).length < bound →
      wordsFrom reader run depth bound
          ⟨first.text ++ (others.flatMap SpacedWord.text ++ rest), offset⟩ done machine =
        .ok (some (done.reverse ++ values, ⟨rest,
          offset + (first.text.length + (others.flatMap SpacedWord.text).length)⟩)) after := by
  have endsWord_rest : ∀ offset, endsWord ⟨rest, offset⟩ = true := by
    intro offset
    rcases ends with rfl | ⟨-, isAtBreak⟩
    · rfl
    · exact endsWord_of_atBreak isAtBreak
  induction others with
  | nil =>
      intro first bound offset done values machine after noError yields deep enough
      simp only [List.flatMap_nil, List.length_nil, Nat.add_zero, List.nil_append] at deep enough ⊢
      obtain ⟨bound, rfl⟩ : ∃ fewer, bound = fewer + 1 := ⟨bound - 1, by omega⟩
      obtain ⟨byte, more, shape, starts⟩ := first.text_starts
      cases yields with
      | cons yields none =>
          cases none
          have read := word_of_yields reader yields noError endsWord_rest depth depth offset deep
            deep
          have skipped : skipBlanks reader ⟨rest, offset + first.text.length⟩ after =
              .ok ⟨rest, offset + first.text.length⟩ after :=
            skipBlanks_apply (skipFrom_of_commandEnd ends _)
          have present : 0 < first.text.length := by simp [shape]
          obtain ⟨bound, rfl⟩ : ∃ fewer, bound = fewer + 1 := ⟨bound - 1, by omega⟩
          rw [shape, List.cons_append] at read ⊢
          rw [wordsFrom_of_word starts noError read (by rwa [shape] at skipped),
            wordsFrom_of_end reader run depth bound ends]
          simp
  | cons spaced others inductionHypothesis =>
      intro first bound offset done values machine after noError yields deep enough
      simp only [List.flatMap_cons, List.length_append, List.append_assoc, SpacedWord.text,
        List.length_replicate] at deep enough ⊢
      obtain ⟨bound, rfl⟩ : ∃ fewer, bound = fewer + 1 := ⟨bound - 1, by omega⟩
      cases yields with
      | @cons _ _ value values _ between _ yields later =>
          have tail : ∀ offset, endsWord ⟨List.replicate (spaced.moreSpaces + 1) Byte.space ++
              (spaced.word.text ++ (others.flatMap SpacedWord.text ++ rest)), offset⟩ = true := by
            intro offset
            rw [List.replicate_succ, List.cons_append, endsWord_cons]
            rfl
          have read := word_of_yields reader yields noError tail depth depth offset (by omega)
            (by omega)
          obtain ⟨next, others', nextShape, nextStarts⟩ := spaced.word.text_starts
          have skipped := skipBlanks_spaces reader (spaced.moreSpaces + 1)
            (spaced.word.text ++ (others.flatMap SpacedWord.text ++ rest))
            (by rw [nextShape]; exact Source.skipFrom_of_startsWord _ _ · nextStarts)
            (offset + first.text.length) between
          have finished := inductionHypothesis spaced.word bound
            (offset + first.text.length + (spaced.moreSpaces + 1)) (value :: done) values between
            after (yields.noError noError) later (by omega) (by omega)
          obtain ⟨byte, more, shape, starts⟩ := first.text_starts
          rw [shape, List.cons_append] at read ⊢
          rw [wordsFrom_of_word starts noError read (by rwa [shape] at skipped), ← shape, finished]
          simp [Nat.add_assoc, Nat.add_comm 1]

/-- The words of a line are read to the end of its text. -/
theorem words_of_line
    (reader : Reader)
    (run : Run σ)
    (line : CommandLine)
    {rest : Text}
    (ends : rest = [] ∨ reader.acrossLines = false ∧ Source.atBreak rest = true)
    {machine after : Machine σ}
    (noError : machine.interpreter.error = none)
    {values : List Text}
    (yields : InTurn (WrittenWord.Yields run) line.words machine values after)
    {bound : Nat}
    (enough : line.text.length < bound)
    (offset : Nat) :
    words reader run bound ⟨line.text ++ rest, offset⟩ machine =
      .ok (some (values, ⟨rest, offset + line.text.length⟩)) after := by
  obtain ⟨first, others⟩ := line
  simp only [CommandLine.text, CommandLine.words, List.length_append, List.append_assoc]
    at enough yields ⊢
  obtain ⟨byte, more, shape, starts⟩ := first.text_starts
  have skipped : skipBlanks reader
      ⟨first.text ++ (others.flatMap SpacedWord.text ++ rest), offset⟩ machine =
        .ok ⟨first.text ++ (others.flatMap SpacedWord.text ++ rest), offset⟩ machine := by
    rw [shape, List.cons_append]
    exact skipBlanks_of_startsWord reader _ offset starts machine
  rw [words, bind_of_ok skipped]
  simpa using wordsFrom_of_yields reader run ends bound others first bound offset [] values machine
    after noError yields (by omega) enough

/-- A line that is the whole text is called as its only command. -/
theorem runText_of_line
    (run : Run σ)
    (rounds : Nat)
    (outermost : Bool)
    (line : CommandLine)
    {machine ready : Machine σ}
    (noError : machine.interpreter.error = none)
    (uncancelled :
      machine.interpreter.context = .running → machine.world.cancellation = none)
    {values : List Text}
    (yields : InTurn (WrittenWord.Yields run) line.words (marked machine 0) values ready)
    (readUnfailed : ready.interpreter.error = none) :
    runText run rounds ⟨outermost, false⟩ line.text machine =
      dispatch run rounds values ready := by
  obtain ⟨byte, more, shape, starts⟩ := line.first.text_starts
  have starting : line.text = byte :: (more ++ line.others.flatMap SpacedWord.text) := by
    rw [CommandLine.text, shape, List.cons_append]
  have going : (Cursor.start line.text).isDone = false := by
    simp [Cursor.start, Cursor.isDone, starting]
  have skipped : skipBlanks ⟨outermost, false⟩ (.start line.text) machine =
      .ok (.start line.text) machine := by
    rw [starting]
    exact skipBlanks_of_startsWord _ _ 0 starts machine
  have named : values ≠ [] := by
    rintro rfl
    exact absurd yields.length_eq (by simp [CommandLine.words])
  have unfailed : (marked machine 0).interpreter.error = none := noError
  have read := words_of_line ⟨outermost, false⟩ run line (.inl rfl) unfailed yields
    (Nat.lt_succ_self line.text.length) 0
  rw [List.append_nil] at read
  rw [runText, bind_of_ok skipped]
  exact commands_of_whole rounds line.text.length going named [] noError uncancelled read
    readUnfailed

/--
Reading a command line yields exactly one word for each word of the line: the bytes of its bare run
and behind them, part by part, the literal text of braces, the value of quoted text and whatever
the code of a substitution returns.  The code may return any bytes, for `run` is arbitrary: none of
them ends a word or the command, none is run, and the reader stops where the text of the line ends.
-/
theorem substituted_values_are_opaque
    (reader : Reader)
    (run : Run σ)
    (line : CommandLine)
    {rest : Text}
    (ends : rest = [] ∨ reader.acrossLines = false ∧ Source.atBreak rest = true)
    {machine after : Machine σ}
    (noError : machine.interpreter.error = none)
    {values : List Text}
    (yields : InTurn (WrittenWord.Yields run) line.words machine values after)
    {bound : Nat}
    (enough : line.text.length < bound)
    (offset : Nat) :
    words reader run bound ⟨line.text ++ rest, offset⟩ machine =
        .ok (some (values, ⟨rest, offset + line.text.length⟩)) after ∧
      values.length = line.words.length :=
  ⟨words_of_line reader run line ends noError yields enough offset, yields.length_eq⟩

/-- The command in brackets, which returns a semicolon, a blank, a dollar and a hash. -/
def marksQuoted : Text := Text.ofString "quote {; $a #}"

/-- The line `quote x{ b}"\t[quote {; $a #}]"{c d}`. -/
def marksLine : CommandLine where
  first := ⟨Text.ofString "quote", [], by decide +kernel, by decide +kernel, by decide +kernel⟩
  others := [{
    moreSpaces := 0
    word := {
      bare := Text.ofString "x"
      parts := [
        .braces (Text.ofString " b") (.of_unmarked (by decide +kernel)),
        .quoted [.escaped 0x74,
          .substituted (.command marksQuoted (.of_unmarked (by decide +kernel)))],
        .braces (Text.ofString "c d") (.of_unmarked (by decide +kernel))]
      isBare := by decide +kernel
      starts := by decide +kernel
      notEmpty := by decide +kernel } }]

/-- Bytes that would end a word or a command are substituted as they are. -/
theorem substituted_values_are_opaque_marks :
    ∃ after, words ⟨true, false⟩ (evaluate 2) 64
        ⟨marksLine.text ++ Text.ofString ";quote", 0⟩ shallow =
      .ok (some ([Text.ofString "quote", Text.ofString "x b\t; $a #c d"],
        ⟨Text.ofString ";quote", 36⟩)) after := by
  obtain ⟨after, ran, noError⟩ := unfailed?_eq_some
    (show unfailed? (evaluate 2 marksQuoted false) shallow = some (Text.ofString "; $a #") by
      decide +kernel)
  have quoted : InTurn (QuotedPiece.Yields (evaluate 2))
      [.escaped 0x74, .substituted (.command marksQuoted (.of_unmarked (by decide +kernel)))]
      shallow [[Byte.tab], Text.ofString "; $a #"] after :=
    .cons ⟨rfl, rfl⟩ (.cons ⟨ran, noError⟩ .nil)
  have yields : InTurn (WrittenWord.Yields (evaluate 2)) marksLine.words shallow
      [Text.ofString "quote", Text.ofString "x b\t; $a #c d"] after :=
    .cons ⟨[], .nil, by decide⟩ <| .cons
      ⟨[Text.ofString " b", Text.ofString "\t; $a #", Text.ofString "c d"],
        .cons ⟨rfl, rfl⟩ (.cons ⟨_, quoted, by decide⟩ (.cons ⟨rfl, rfl⟩ .nil)), by decide⟩ .nil
  have read := substituted_values_are_opaque ⟨true, false⟩ (evaluate 2) marksLine
    (show Text.ofString ";quote" = [] ∨ false = false ∧
      Source.atBreak (Text.ofString ";quote") = true from .inr ⟨rfl, by decide⟩)
    (show shallow.interpreter.error = none by decide) yields
    (show marksLine.text.length < 64 by decide) 0
  exact ⟨after, read.1⟩

end Eval

end LittleScript
