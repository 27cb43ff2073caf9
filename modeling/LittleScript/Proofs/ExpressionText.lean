import LittleScript.Proofs.ExpressionReading
import LittleScript.Proofs.Words
import LittleScript.Script.Host

namespace LittleScript

/-!
# Evaluating the text of a tree

Before an expression is read, its text is read as a list and joined with single spaces, which may
run code and drop what belongs to words.  The text of a tree consists of bare words between single
spaces, so it stays as it is and nothing runs.
-/

open Source (Cursor)

/-! ## Bare words between single spaces -/

/-- A byte of a bare word that starts no comment. -/
def isWordByte (byte : UInt8) : Bool :=
  isBare byte && byte != Byte.hash

/-- Bare words between single spaces. -/
inductive Spaced : Text → Prop where
  | single {byte : UInt8} : isWordByte byte = true → Spaced [byte]
  | cons {byte : UInt8} {rest : Text} : isWordByte byte = true → Spaced rest → Spaced (byte :: rest)
  | gap {byte : UInt8} {rest : Text} :
      isWordByte byte = true → Spaced rest → Spaced (byte :: Byte.space :: rest)

namespace Spaced

variable {text other : Text}

theorem append
    (spaced : Spaced text)
    (otherSpaced : Spaced other) :
    Spaced (text ++ other) := by
  induction spaced with
  | single isByte => exact .cons isByte otherSpaced
  | cons isByte _ inductionHypothesis => exact .cons isByte inductionHypothesis
  | gap isByte _ inductionHypothesis => exact .gap isByte inductionHypothesis

theorem appendSpace
    (spaced : Spaced text)
    (otherSpaced : Spaced other) :
    Spaced (text ++ Byte.space :: other) := by
  induction spaced with
  | single isByte => exact .gap isByte otherSpaced
  | cons isByte _ inductionHypothesis => exact .cons isByte inductionHypothesis
  | gap isByte _ inductionHypothesis => exact .gap isByte inductionHypothesis

theorem of_wordBytes
    (notEmpty : text ≠ [])
    (areWordBytes : ∀ byte ∈ text, isWordByte byte = true) :
    Spaced text := by
  induction text with
  | nil =>
      exact absurd rfl notEmpty
  | cons byte rest inductionHypothesis =>
      have isByte := areWordBytes byte (by simp)
      cases rest with
      | nil =>
          exact .single isByte
      | cons next rest =>
          exact .cons isByte (inductionHypothesis (List.cons_ne_nil _ _)
            fun other member => areWordBytes other (by simp [member]))

end Spaced

theorem isWordByte_facts
    {byte : UInt8}
    (isByte : isWordByte byte = true) :
    isBare byte = true ∧ byte ≠ Byte.hash ∧ Byte.isSpace byte = false ∧
      Byte.isSeparator byte = false ∧ Source.isLineBreak byte = false := by
  revert byte
  apply Byte.of_codes
  decide +kernel

/-- No blank stretch stands before a word byte that no line break follows. -/
theorem Source.skipFrom_of_wordByte
    (acrossLines : Bool)
    {byte : UInt8}
    {rest : Text}
    (offset : Nat)
    (isByte : isWordByte byte = true)
    (unbroken : ∀ next ∈ rest.head?, isLineBreak next = false) :
    skipFrom acrossLines .plain (byte :: rest) offset = ⟨⟨byte :: rest, offset⟩, none⟩ := by
  obtain ⟨-, notHash, notSpace, notSeparator, -⟩ := isWordByte_facts isByte
  have noContinuation : rest.head?.any isLineBreak = false := by
    cases rest with
    | nil => rfl
    | cons next rest => exact unbroken next rfl
  rw [skipFrom_cons _ _ _ _ _ (.inl rfl)]
  simp [notSpace, notSeparator, notHash, noContinuation]

theorem Spaced.unbroken
    {text : Text}
    (spaced : Spaced text) :
    ∃ byte rest, text = byte :: rest ∧ isWordByte byte = true ∧
      ∀ next ∈ rest.head?, Source.isLineBreak next = false := by
  cases spaced with
  | @single byte isByte => exact ⟨byte, [], rfl, isByte, by simp⟩
  | @cons byte rest isByte spacedRest =>
      refine ⟨byte, rest, rfl, isByte, fun next isNext => ?_⟩
      cases spacedRest with
      | single isOther | cons isOther _ | gap isOther _ =>
          cases isNext
          exact (isWordByte_facts isOther).2.2.2.2
  | @gap byte rest isByte _ =>
      exact ⟨byte, Byte.space :: rest, rfl, isByte, fun next isNext => by cases isNext; rfl⟩

/-- The first word of such a text: it is all of it, or a space and such a text follow. -/
theorem Spaced.firstWord
    {text : Text}
    (spaced : Spaced text) :
    ∃ first more rest, text = first :: more ++ rest ∧
      (∀ byte ∈ first :: more, isWordByte byte = true) ∧
      (rest = [] ∨ ∃ after, rest = Byte.space :: after ∧ Spaced after) := by
  induction spaced with
  | @single byte isByte =>
      exact ⟨byte, [], [], rfl, by simpa using isByte, .inl rfl⟩
  | @cons byte rest isByte _ inductionHypothesis =>
      obtain ⟨first, more, rest, rfl, areWordBytes, ends⟩ := inductionHypothesis
      refine ⟨byte, first :: more, rest, rfl, fun other member => ?_, ends⟩
      rcases List.mem_cons.mp member with rfl | isLater
      · exact isByte
      · exact areWordBytes other isLater
  | @gap byte rest isByte spacedRest _ =>
      exact ⟨byte, [], Byte.space :: rest, rfl, by simpa using isByte, .inr ⟨rest, rfl, spacedRest⟩⟩

namespace Eval

variable {σ : Type}

theorem skipBlanks_of_spaced
    (reader : Reader)
    {text : Text}
    (spaced : Spaced text)
    (offset : Nat)
    (machine : Machine σ) :
    skipBlanks reader ⟨text, offset⟩ machine = .ok ⟨text, offset⟩ machine := by
  obtain ⟨byte, rest, rfl, isByte, unbroken⟩ := spaced.unbroken
  exact skipBlanks_apply (Source.skipFrom_of_wordByte _ offset isByte unbroken)

/-- Bare words between single spaces are read one by one, and joining them gives the text. -/
theorem wordsFrom_spaced
    (reader : Reader)
    (run : Run σ)
    (depth : Nat)
    {machine : Machine σ}
    (noError : machine.interpreter.error = none)
    (bound : Nat) :
    ∀ (text : Text) (offset : Nat) (done : List Text), Spaced text → text.length < bound →
      ∃ pieces, Text.joinSpaced pieces = text ∧
        wordsFrom reader run (depth + 1) bound ⟨text, offset⟩ done machine =
          .ok (some (done.reverse ++ pieces, ⟨[], offset + text.length⟩)) machine := by
  induction bound with
  | zero =>
      intro text offset done spaced small
      omega
  | succ bound inductionHypothesis =>
      intro text offset done spaced small
      obtain ⟨first, more, rest, rfl, areWordBytes, ends⟩ := spaced.firstWord
      have bare : ∀ byte ∈ first :: more, isBare byte = true :=
        fun byte member => (isWordByte_facts (areWordBytes byte member)).1
      have notSeparator := (isWordByte_facts (areWordBytes first (by simp))).2.2.2.1
      have endsBare : ∀ byte ∈ rest.head?, isBare byte = false := by
        rcases ends with rfl | ⟨after, rfl, -⟩
        · simp
        · intro byte isHead
          cases isHead
          rfl
      have endsAfter : ∀ place, endsWord ⟨rest, place⟩ = true := by
        rcases ends with rfl | ⟨after, rfl, -⟩ <;> exact fun _ => rfl
      have readPart := part_bareRun reader run depth offset machine
        (skipBlanks_of_spaced reader spaced offset machine) bare endsBare
      have readWord := word_of_last depth [] readPart (by simp) (endsAfter _)
      have notAtEnd : ((⟨first :: more ++ rest, offset⟩ : Cursor).isDone ||
          (!reader.acrossLines &&
            (⟨first :: more ++ rest, offset⟩ : Cursor).isOn Byte.isSeparator)) = false := by
        simp [Cursor.isDone, Cursor.isOn, notSeparator]
      rw [wordsFrom]
      simp only [notAtEnd, hasError_bind_apply, noError, Option.isSome_none, Bool.or_self,
        Bool.false_eq_true, if_false]
      rw [bind_of_ok readWord]
      simp only
      rcases ends with rfl | ⟨after, rfl, spacedAfter⟩
      · obtain ⟨fewer, rfl⟩ : ∃ fewer, bound = fewer + 1 :=
          ⟨bound - 1, by simp only [List.length_append, List.length_cons] at small; omega⟩
        have skipped : skipBlanks reader ⟨[], offset + (more.length + 1)⟩ machine =
            .ok ⟨[], offset + (more.length + 1)⟩ machine :=
          skipBlanks_apply (Source.skipFrom_plain_nil _ _)
        refine ⟨[first :: more], by simp [Text.joinSpaced, Text.joinWith], ?_⟩
        rw [bind_of_ok skipped, wordsFrom]
        simp [-bind_pure_comp, Cursor.isDone]
      · have skipped : skipBlanks reader ⟨Byte.space :: after, offset + (more.length + 1)⟩ machine =
            .ok ⟨after, offset + (more.length + 1) + 1⟩ machine := by
          obtain ⟨byte, behind, rfl, isByte, unbroken⟩ := spacedAfter.unbroken
          apply skipBlanks_apply
          rw [Source.skipBlanks, Source.skipFrom_space]
          exact Source.skipFrom_of_wordByte _ _ isByte unbroken
        simp only [List.length_append, List.length_cons] at small
        obtain ⟨pieces, joined, readOthers⟩ := inductionHypothesis after
          (offset + (more.length + 1) + 1) ((first :: more) :: done) spacedAfter (by omega)
        refine ⟨(first :: more) :: pieces, ?_, ?_⟩
        · cases pieces with
          | nil =>
              cases joined
              cases spacedAfter
          | cons piece pieces =>
              rw [← joined]
              simp [Text.joinSpaced, Text.joinWith]
        · rw [bind_of_ok skipped]
          refine readOthers.trans ?_
          simp
          omega

/-- Bare words between single spaces are read as they are, without running anything. -/
theorem readJoined_spaced
    (run : Run σ)
    {machine : Machine σ}
    (noError : machine.interpreter.error = none)
    {text : Text}
    (spaced : Spaced text) :
    readJoined run text machine = .ok text machine := by
  obtain ⟨pieces, joined, read⟩ := wordsFrom_spaced ⟨false, true⟩ run text.length noError
    (text.length + 1) text 0 [] spaced (Nat.lt_succ_self _)
  have readAll : readList run text machine = .ok pieces machine := by
    have readWords : words ⟨false, true⟩ run (text.length + 1) (.start text) machine =
        .ok (some (pieces, ⟨[], 0 + text.length⟩)) machine := by
      rw [words, Cursor.start, bind_of_ok (skipBlanks_of_spaced _ spaced 0 machine)]
      exact read
    rw [readList, bind_of_ok readWords]
    rfl
  rw [readJoined, bind_of_ok readAll, joined]
  rfl

/-- An error that is raised while none is pending becomes the pending one. -/
theorem raise_of_unfailed
    (reason : Reason)
    {machine : Machine σ}
    (noError : machine.interpreter.error = none) :
    ∃ error world, error.reason = reason ∧
      raise reason machine = .ok () ⟨{ machine.interpreter with error := some error }, world⟩ := by
  refine ⟨.locate reason machine.interpreter.source
    ((machine.interpreter.active.getLast?.getD 0 : Nat) : Int), ?_⟩
  rw [raise, commandStart, inspect_bind_apply, raiseAt, interpreter_bind_apply, noError]
  exact ⟨_, rfl, rfl⟩

/-! ## The text of a tree -/

theorem isWordByte_of_isDigit
    {byte : UInt8}
    (isDigit : Byte.isDigit byte = true) :
    isWordByte byte = true := by
  revert byte
  apply Byte.of_codes
  decide +kernel

theorem spaced_enclose
    {text : Text}
    (spaced : Spaced text)
    (needed : Bool) :
    Spaced (Expression.enclose needed text) := by
  cases needed with
  | false =>
      exact spaced
  | true =>
      exact .cons (by decide) (spaced.append (.single (by decide)))

theorem spaced_symbol
    (operator : Expression.Operator) :
    Spaced operator.symbol := by
  apply Spaced.of_wordBytes
  · cases operator <;> exact List.cons_ne_nil _ _
  · cases operator <;> decide +kernel

theorem spaced_print
    (tree : Expression.Tree) :
    Spaced tree.print := by
  induction tree with
  | literal number =>
      exact .of_wordBytes (Text.ofNat_ne_nil _)
        fun byte member => isWordByte_of_isDigit (Text.ofNat_digits _ byte member)
  | signed sign operand inductionHypothesis =>
      exact .cons (by cases sign <;> decide) (spaced_enclose inductionHypothesis _)
  | group inside inductionHypothesis =>
      exact spaced_enclose inductionHypothesis true
  | binary operator isWhole left right leftSpaced rightSpaced =>
      exact (spaced_enclose leftSpaced _).appendSpace
        ((spaced_symbol operator).appendSpace (spaced_enclose rightSpaced _))

/--
Evaluating the text of a tree gives the decimal text of its value.  Where the tree has a fault, it is
the one that comes first, a division by zero or a negative count of a shift; there is no value, and
the fault is pending.
-/
theorem expression_of_tree
    (run : Run σ)
    (machine : Machine σ)
    (noError : machine.interpreter.error = none)
    (tree : Expression.Tree) :
    (∀ value, tree.value = .ok value →
      expression run tree.print machine = .ok (some (Text.ofInt value)) machine) ∧
    (∀ fault, tree.value = .error fault →
      (fault = .divisionByZero ∨ fault = .negativeShift) ∧
      ∃ error world, error.reason = .arithmetic fault ∧
        expression run tree.print machine =
          .ok none ⟨{ machine.interpreter with error := some error }, world⟩) := by
  have agrees := tree.evaluate_agrees
  rw [← Expression.evaluate_print] at agrees
  have joined := readJoined_spaced run noError (spaced_print tree)
  rw [expression, bind_of_ok joined, hasError_bind_apply, noError]
  constructor
  · intro value isValue
    rw [isValue] at agrees
    generalize Expression.evaluate tree.print = found at agrees ⊢
    cases agrees
    rfl
  · intro fault isFault
    rw [isFault] at agrees
    generalize Expression.evaluate tree.print = found at agrees ⊢
    cases agrees
    obtain ⟨error, world, isReason, raised⟩ :=
      raise_of_unfailed (.arithmetic fault) noError
    refine ⟨Expression.Tree.fault_cases isFault, error, world, isReason, ?_⟩
    exact bind_of_ok raised

/-- The least integer divided by minus one. -/
def leastByMinusOne : Expression.Tree :=
  .binary .quotient (by decide)
    (.binary .subtract (by decide) (.signed .minus (.literal ⟨9223372036854775807, by decide⟩))
      (.literal ⟨1, by decide⟩))
    (.signed .minus (.literal ⟨1, by decide⟩))

/-- A shift by a negative count, and behind it a division by zero. -/
def shiftBeforeDivision : Expression.Tree :=
  .binary .add (by decide)
    (.group (.binary .shiftLeft (by decide) (.literal ⟨1, by decide⟩)
      (.signed .minus (.literal ⟨1, by decide⟩))))
    (.binary .remainder (by decide) (.literal ⟨5, by decide⟩) (.literal ⟨0, by decide⟩))

/-- The least integer divided by minus one wraps around, and the first of two faults counts. -/
theorem expression_of_tree_least :
    (Machine.start () {} {}).interpreter.error = none ∧
      leastByMinusOne.print = Text.ofString "(-9223372036854775807 - 1) \\ -1" ∧
      expression runCode leastByMinusOne.print (Machine.start () {} {}) =
        .ok (some (Text.ofInt (-9223372036854775808))) (Machine.start () {} {}) ∧
      shiftBeforeDivision.print = Text.ofString "(1 << -1) + 5 % 0" ∧
      ∃ error world, error.reason = .arithmetic .negativeShift ∧
        expression runCode shiftBeforeDivision.print (Machine.start () {} {}) =
          .ok none ⟨{ (Machine.start () {} {}).interpreter with error := some error }, world⟩ :=
  ⟨rfl, by decide +kernel,
    (expression_of_tree runCode (Machine.start () {} {}) rfl leastByMinusOne).1 _ rfl,
    by decide +kernel,
    ((expression_of_tree runCode (Machine.start () {} {}) rfl shiftBeforeDivision).2 _ rfl).2⟩

end Eval

end LittleScript
