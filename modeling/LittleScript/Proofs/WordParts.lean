import LittleScript.Proofs.LongerText

namespace LittleScript

/-!
# Words as sequences of parts

A part that is known as a text of its own is read as that text wherever nothing in it depends on
what follows.  Parts that stand directly next to each other are then one word, whose value is put
together from theirs in order, while the machine passes from one part to the next.
-/

open Source (Cursor)

variable {σ α β : Type}

/-! ## One after the other -/

/-- What each of several things yields on a machine, when each starts where the one before ended. -/
inductive InTurn (Yields : α → Machine σ → β → Machine σ → Prop) :
    List α → Machine σ → List β → Machine σ → Prop where
  | nil {machine : Machine σ} :
      InTurn Yields [] machine [] machine
  | cons {first : α} {rest : List α} {value : β} {values : List β}
      {machine between after : Machine σ} :
      Yields first machine value between →
      InTurn Yields rest between values after →
      InTurn Yields (first :: rest) machine (value :: values) after

/-- Each of several things in turn yields one value. -/
theorem InTurn.length_eq
    {Yields : α → Machine σ → β → Machine σ → Prop}
    {items : List α}
    {values : List β}
    {machine after : Machine σ}
    (inTurn : InTurn Yields items machine values after) :
    values.length = items.length := by
  induction inTurn with
  | nil => rfl
  | cons _ _ inductionHypothesis => simp [inductionHypothesis]

/-- What each of several things keeps, all of them keep. -/
theorem InTurn.keeps
    {Yields : α → Machine σ → β → Machine σ → Prop}
    {items : List α}
    {values : List β}
    {machine after : Machine σ}
    {property : Machine σ → Prop}
    (inTurn : InTurn Yields items machine values after)
    (step : ∀ {item value machine after}, Yields item machine value after →
      property machine → property after)
    (holds : property machine) :
    property after := by
  induction inTurn with
  | nil => exact holds
  | cons yields _ inductionHypothesis => exact inductionHypothesis (step yields holds)

/-! ## Balanced texts -/

namespace Source

/-- A text in which every opener is matched by a closer behind it, and every closer by an opener. -/
inductive Balanced (opener closer : UInt8) : Text → Prop where
  | nil : Balanced opener closer []
  | plain {byte : UInt8} {rest : Text} :
      byte ≠ opener →
      byte ≠ closer →
      Balanced opener closer rest →
      Balanced opener closer (byte :: rest)
  | nested {inside rest : Text} :
      Balanced opener closer inside →
      Balanced opener closer rest →
      Balanced opener closer (opener :: (inside ++ closer :: rest))

/-- A text without openers and closers is balanced. -/
theorem Balanced.of_unmarked
    {opener closer : UInt8}
    {text : Text}
    (unmarked : ∀ byte ∈ text, byte ≠ opener ∧ byte ≠ closer) :
    Balanced opener closer text := by
  induction text with
  | nil => exact .nil
  | cons byte rest inductionHypothesis =>
      have first := unmarked byte (by simp)
      exact .plain first.1 first.2
        (inductionHypothesis fun other member => unmarked other (by simp [member]))

/-- The search for a closer passes over a balanced text, however deep it is. -/
theorem Balanced.balanced?_append
    {opener closer : UInt8}
    (differs : closer ≠ opener)
    {text : Text}
    (balanced : Balanced opener closer text)
    (depth : Nat)
    (tail inside : Text) :
    balanced? opener closer depth (text ++ tail) inside =
      balanced? opener closer depth tail (text.reverse ++ inside) := by
  induction balanced generalizing depth tail inside with
  | nil =>
      rfl
  | plain notOpener notCloser _ inductionHypothesis =>
      rw [List.cons_append, balanced?.eq_def]
      simp [notOpener, notCloser, inductionHypothesis]
  | @nested within rest _ _ ofInside ofRest =>
      have opened : ∀ more, balanced? opener closer depth (opener :: more) inside =
          balanced? opener closer (depth + 1) more (opener :: inside) := by
        intro more
        rw [balanced?.eq_def]
        simp
      have closed : ∀ more before, balanced? opener closer (depth + 1) (closer :: more) before =
          balanced? opener closer depth more (closer :: before) := by
        intro more before
        rw [balanced?.eq_def]
        simp [differs]
      rw [List.cons_append, List.append_assoc, List.cons_append, opened, ofInside, closed, ofRest]
      simp

theorem Balanced.closes
    {opener closer : UInt8}
    (differs : closer ≠ opener)
    {inside : Text}
    (balanced : Balanced opener closer inside)
    (tail : Text) :
    balanced? opener closer 0 (inside ++ closer :: tail) [] = some (inside, tail) := by
  rw [balanced.balanced?_append differs, balanced?.eq_def]
  simp [differs]

theorem Balanced.bracesEnd?
    {inside : Text}
    (balanced : Balanced Byte.openBrace Byte.closeBrace inside)
    (tail : Text) :
    bracesEnd? (inside ++ Byte.closeBrace :: tail) = some (inside, tail) :=
  balanced.closes (by decide) tail

theorem Balanced.bracketsEnd?
    {inside : Text}
    (balanced : Balanced Byte.openBracket Byte.closeBracket inside)
    (tail : Text) :
    bracketsEnd? (inside ++ Byte.closeBracket :: tail) = some (inside, tail) :=
  balanced.closes (by decide) tail

end Source

/-- Literal text between braces. -/
def inBraces (inside : Text) : Text :=
  Byte.openBrace :: (inside ++ [Byte.closeBrace])

/-- Code between brackets. -/
def inBrackets (inside : Text) : Text :=
  Byte.openBracket :: (inside ++ [Byte.closeBracket])

namespace Eval

/-! ## Single parts -/

/-- Before a byte that starts a word the reader goes straight to the part. -/
theorem part_of_startsWord
    (reader : Reader)
    (run : Run σ)
    (bound : Nat)
    {byte : UInt8}
    (starts : Source.startsWord byte = true)
    (rest : Text)
    (offset : Nat)
    (machine : Machine σ) :
    part reader run (bound + 1) ⟨byte :: rest, offset⟩ machine =
      partAt reader run bound byte rest offset machine := by
  rw [part_succ, bind_of_ok (skipBlanks_of_startsWord reader rest offset starts machine)]

/--
With `rest` behind it, `text` is read as one part: it has this value, takes the machine to `after`,
and the reading stops where `rest` begins.
-/
def ReadsPart (reader : Reader) (run : Run σ) (text rest : Text) (machine : Machine σ)
    (value : Text) (after : Machine σ) : Prop :=
  ∀ bound offset : Nat, text.length ≤ bound →
    part reader run bound ⟨text ++ rest, offset⟩ machine =
      .ok (value, ⟨rest, offset + text.length⟩) after

/-- Literal text between braces stands for itself. -/
theorem readsPart_inBraces
    (reader : Reader)
    (run : Run σ)
    {inside : Text}
    (balanced : Source.Balanced Byte.openBrace Byte.closeBrace inside)
    (rest : Text)
    (machine : Machine σ) :
    ReadsPart reader run (inBraces inside) rest machine inside machine := by
  intro bound offset enough
  obtain ⟨bound, rfl⟩ : ∃ fewer, bound = fewer + 1 :=
    ⟨bound - 1, by simp only [inBraces, List.length_cons] at enough; omega⟩
  have notDollar : (Byte.openBrace == Byte.dollar) = false := by decide
  rw [inBraces, List.cons_append, part_of_startsWord reader run bound (by decide), partAt]
  simp [notDollar, bracePart, balanced.bracesEnd?, Nat.add_assoc, Nat.add_comm 1]

/-- Code between brackets stands for its result. -/
theorem readsPart_inBrackets
    (reader : Reader)
    {run : Run σ}
    {inside : Text}
    (balanced : Source.Balanced Byte.openBracket Byte.closeBracket inside)
    {machine after : Machine σ}
    {value : Text}
    (ran : run inside false machine = .ok value after)
    (rest : Text) :
    ReadsPart reader run (inBrackets inside) rest machine value after := by
  intro bound offset enough
  obtain ⟨bound, rfl⟩ : ∃ fewer, bound = fewer + 1 :=
    ⟨bound - 1, by simp only [inBrackets, List.length_cons] at enough; omega⟩
  have notDollar : (Byte.openBracket == Byte.dollar) = false := by decide
  have notBrace : (Byte.openBracket == Byte.openBrace) = false := by decide
  rw [inBrackets, List.cons_append, part_of_startsWord reader run bound (by decide), partAt]
  simp only [notDollar, notBrace, Bool.false_eq_true, if_false, beq_self_eq_true, if_true,
    bracketPart, List.append_assoc, List.singleton_append, balanced.bracketsEnd?]
  rw [bind_of_ok ran]
  simp [Nat.add_assoc, Nat.add_comm 1]

/-- A run of bare bytes stands for itself where no blanks are skipped and it does not go on. -/
theorem readsPart_bare
    (reader : Reader)
    (run : Run σ)
    {first : UInt8}
    {more rest : Text}
    (bare : ∀ byte ∈ first :: more, isBare byte = true)
    (ends : ∀ byte ∈ rest.head?, isBare byte = false)
    (stays : ∀ offset, Source.skipFrom reader.acrossLines .plain (first :: (more ++ rest)) offset =
      ⟨⟨first :: (more ++ rest), offset⟩, none⟩)
    (machine : Machine σ) :
    ReadsPart reader run (first :: more) rest machine (first :: more) machine := by
  intro bound offset enough
  obtain ⟨bound, rfl⟩ : ∃ fewer, bound = fewer + 1 :=
    ⟨bound - 1, by simp only [List.length_cons] at enough; omega⟩
  exact part_bareRun reader run bound offset machine (skipBlanks_apply (stays offset)) bare ends

/-! ## Parts of one word -/

/--
Texts that stand next to each other with `rest` behind them are read as the parts of one word.
Between two of them no error is pending and the word does not end.
-/
inductive ReadsParts (reader : Reader) (run : Run σ) (rest : Text) :
    List Text → Machine σ → List Text → Machine σ → Prop where
  | last {text value : Text} {machine after : Machine σ} :
      text ≠ [] →
      ReadsPart reader run text rest machine value after →
      ReadsParts reader run rest [text] machine [value] after
  | more {text value : Text} {texts values : List Text} {machine between after : Machine σ} :
      text ≠ [] →
      ReadsPart reader run text (texts.flatten ++ rest) machine value between →
      between.interpreter.error = none →
      (∀ offset, endsWord ⟨texts.flatten ++ rest, offset⟩ = false) →
      ReadsParts reader run rest texts between values after →
      ReadsParts reader run rest (text :: texts) machine (value :: values) after

/--
What yields values in turn is read as the parts of one word, if each is read as what it yields
where it stands.
-/
theorem readsParts_of_inTurn
    {reader : Reader}
    {run : Run σ}
    {rest : Text}
    {text : α → Text}
    {Yields : α → Machine σ → Text → Machine σ → Prop}
    {parts : List α}
    {machine after : Machine σ}
    {values : List Text}
    (yields : InTurn Yields parts machine values after)
    (present : parts ≠ [])
    (noError : machine.interpreter.error = none)
    (starts : ∀ part ∈ parts, ∃ first more, text part = first :: more ∧
      Byte.isSpace first = false ∧ Byte.isSeparator first = false)
    (keeps : ∀ {part machine value after}, Yields part machine value after →
      machine.interpreter.error = none → after.interpreter.error = none)
    (reads : ∀ part behind, part :: behind <:+ parts →
      ∀ {machine value after}, Yields part machine value after →
        ReadsPart reader run (text part) ((behind.map text).flatten ++ rest) machine value after) :
    ReadsParts reader run rest (parts.map text) machine values after := by
  induction yields with
  | nil => exact absurd rfl present
  | @cons part parts value values machine between after yields inTurn inductionHypothesis =>
      obtain ⟨first, more, shape, -⟩ := starts part (by simp)
      have notEmpty : text part ≠ [] := by simp [shape]
      have read := reads part parts List.suffix_rfl yields
      cases inTurn with
      | nil => exact .last notEmpty read
      | @cons next parts =>
          refine .more notEmpty read (keeps yields noError) ?_ (inductionHypothesis (by simp)
            (keeps yields noError) (fun other member => starts other (by simp [member]))
            fun other behind suffix => reads other behind (suffix.trans (List.suffix_cons _ _)))
          intro offset
          obtain ⟨byte, later, nextShape, notSpace, notSeparator⟩ := starts next (by simp)
          simp [nextShape, notSpace, notSeparator]

/-- Parts that stand next to each other are one word, which ends where a word can end. -/
theorem ReadsParts.word
    {reader : Reader}
    {run : Run σ}
    {rest : Text}
    {texts values : List Text}
    {machine after : Machine σ}
    (reads : ReadsParts reader run rest texts machine values after)
    (ends : ∀ offset, endsWord ⟨rest, offset⟩ = true)
    (depth bound offset : Nat)
    (done : Text)
    (deep : texts.flatten.length ≤ depth)
    (enough : texts.flatten.length ≤ bound) :
    word reader run depth bound ⟨texts.flatten ++ rest, offset⟩ done machine =
      .ok (some (done.reverse ++ values.flatten, ⟨rest, offset + texts.flatten.length⟩)) after := by
  induction reads generalizing bound offset done with
  | @last text _ _ _ notEmpty read =>
      have present := List.length_pos_iff.mpr notEmpty
      simp only [List.flatten_cons, List.flatten_nil, List.append_nil] at deep enough ⊢
      obtain ⟨bound, rfl⟩ : ∃ fewer, bound = fewer + 1 := ⟨bound - 1, by omega⟩
      exact word_of_last bound done (read depth offset deep) (by simp [notEmpty]) (ends _)
  | @more text value texts _ _ _ _ notEmpty read noError goesOn _ inductionHypothesis =>
      have present := List.length_pos_iff.mpr notEmpty
      simp only [List.flatten_cons, List.length_append, List.append_assoc] at deep enough ⊢
      obtain ⟨bound, rfl⟩ : ∃ fewer, bound = fewer + 1 := ⟨bound - 1, by omega⟩
      have moved : offset + text.length ≠ offset := by omega
      rw [word_of_more bound done (read depth offset (by omega)) moved (goesOn _) noError,
        inductionHypothesis bound _ _ (by omega) (by omega)]
      simp [Nat.add_assoc]

end Eval

end LittleScript
