import LittleScript.Proofs.Commands
import LittleScript.Script.Host

namespace LittleScript

/-!
# Lists survive as text

A list that has been written as text is read back element by element, whatever bytes its elements
hold.  This is so for a reader of lists and for a reader of commands, and reading neither runs code
nor changes the machine.
-/

open Source (Cursor)

namespace ListText

/-- The letter whose escape stands for a brace. -/
def braceLetter (brace : UInt8) : UInt8 :=
  if brace == Byte.openBrace then 0x6f else 0x63

/-- A byte that is no brace is written as it is. -/
theorem guardByte_of_unbraced
    {byte : UInt8}
    (unbraced : isUnbraced byte = true) :
    guardByte byte = [byte] := by
  simp only [isUnbraced, Bool.and_eq_true, bne_iff_ne] at unbraced
  simp [guardByte, unbraced.1, unbraced.2]

/-- A brace is written as a quoted escape that stands for it, between two braced stretches. -/
theorem guardByte_of_brace
    {brace : UInt8}
    (isBrace : isUnbraced brace = false) :
    guardByte brace =
      [Byte.closeBrace, Byte.doubleQuote, Byte.backslash, braceLetter brace, Byte.doubleQuote,
        Byte.openBrace] ∧
      unescape (braceLetter brace) = brace := by
  revert brace
  apply Byte.of_codes
  decide +kernel

/-- The bytes of an element that needs no braces are bare, and each could start a word. -/
theorem bare_of_not_needsBraces
    {element : Text}
    (plain : needsBraces element = false)
    {byte : UInt8}
    (member : byte ∈ element) :
    isBare byte = true ∧ Source.startsWord byte = true := by
  have classified :
      ∀ byte : UInt8, Byte.isPunctuation byte = false → Byte.isSpace byte = false →
        isBare byte = true ∧ Source.startsWord byte = true := by
    apply Byte.of_codes
    decide +kernel
  simp only [needsBraces, Bool.or_eq_false_iff, List.any_eq_false, Bool.not_eq_true] at plain
  obtain ⟨notPunctuation, notSpace⟩ := plain.2 byte member
  exact classified byte notPunctuation notSpace

/-- A written element starts a word. -/
theorem writeWord_startsWord
    (element : Text) :
    ∃ first more, writeWord element = first :: more ∧ Source.startsWord first = true := by
  cases needed : needsBraces element with
  | true =>
      exact ⟨_, _, by rw [writeWord, if_pos needed], by decide⟩
  | false =>
      cases element with
      | nil =>
          simp [needsBraces] at needed
      | cons first more =>
          refine ⟨first, more, by simp [writeWord, needed], ?_⟩
          exact (bare_of_not_needsBraces needed (by simp)).2

/-- A list of one element is written as the element. -/
theorem write_singleton
    (element : Text) :
    write [element] = writeWord element := by
  simp [write, Text.joinSpaced, Text.joinWith]

/-- Elements are written with single spaces between them. -/
theorem write_cons_cons
    (first second : Text)
    (rest : List Text) :
    write (first :: second :: rest) =
      writeWord first ++ Byte.space :: write (second :: rest) := by
  simp [write, Text.joinSpaced, Text.joinWith]

/-- The text of a list that is not empty starts a word. -/
theorem write_startsWord
    (element : Text)
    (rest : List Text) :
    ∃ first more, write (element :: rest) = first :: more ∧ Source.startsWord first = true := by
  obtain ⟨first, more, written, starts⟩ := writeWord_startsWord element
  cases rest with
  | nil =>
      exact ⟨first, more, by rw [write_singleton, written], starts⟩
  | cons second others =>
      exact ⟨first, _, by rw [write_cons_cons, written, List.cons_append], starts⟩

end ListText

namespace Eval

variable {σ : Type}

open ListText (braceLetter guardByte guardByte_of_unbraced guardByte_of_brace writeWord)

/-- A braced element is read back as one word, however far its first stretch has been scanned. -/
theorem word_braced
    (reader : Reader)
    (run : Run σ)
    (depth : Nat)
    (machine : Machine σ)
    (noError : machine.interpreter.error = none)
    (rest : Text)
    (ends : ∀ offset, endsWord ⟨rest, offset⟩ = true)
    (element : Text) :
    ∀ (stretch : Text) (bound offset : Nat) (done : Text),
      (∀ byte ∈ stretch, isUnbraced byte = true) →
      (element.flatMap guardByte).length < bound →
      word reader run (depth + 1) bound
          ⟨Byte.openBrace :: (stretch ++ (element.flatMap guardByte ++ Byte.closeBrace :: rest)),
            offset⟩ done machine =
        .ok (some (done.reverse ++ stretch ++ element,
          ⟨rest, offset + (stretch.length + (element.flatMap guardByte).length + 2)⟩))
          machine := by
  induction element with
  | nil =>
      intro stretch bound offset done unbraced enough
      obtain ⟨bound, rfl⟩ : ∃ fewer, bound = fewer + 1 := ⟨bound - 1, by omega⟩
      have read := part_brace reader run depth rest offset machine unbraced
      simpa using word_of_last bound done read (by simp) (ends _)
  | cons byte later inductionHypothesis =>
      intro stretch bound offset done unbraced enough
      cases brace : isUnbraced byte with
      | true =>
          rw [List.flatMap_cons, guardByte_of_unbraced brace] at enough ⊢
          have longer := inductionHypothesis (stretch ++ [byte]) bound offset done
            (by simpa [or_imp, forall_and] using ⟨unbraced, brace⟩)
            (by rw [List.length_append] at enough; omega)
          simpa [Nat.add_assoc, Nat.add_comm 1] using longer
      | false =>
          obtain ⟨guarded, escaped⟩ := guardByte_of_brace brace
          rw [List.flatMap_cons, guarded] at enough ⊢
          simp only [List.length_append, List.length_cons, List.length_nil] at enough
          obtain ⟨bound, rfl⟩ : ∃ fewer, bound = fewer + 2 := ⟨bound - 2, by omega⟩
          let tail := later.flatMap guardByte ++ Byte.closeBrace :: rest
          have readStretch := part_brace reader run depth
            (Byte.doubleQuote :: Byte.backslash :: braceLetter byte :: Byte.doubleQuote ::
              Byte.openBrace :: tail) offset machine unbraced
          have readEscape := part_quotedEscape reader run depth (braceLetter byte)
            (Byte.openBrace :: tail) (offset + (stretch.length + 2)) machine
          have readLater := inductionHypothesis [] bound
            (offset + (stretch.length + 2) + 4) (byte :: (stretch.reverse ++ done))
            (by simp) (by omega)
          rw [escaped] at readEscape
          simp only [List.cons_append, List.nil_append] at readLater ⊢
          rw [word_of_more (bound + 1) done readStretch (by simp) rfl noError,
            word_of_more bound _ readEscape (by simp) rfl noError]
          refine readLater.trans ?_
          simp
          omega

/-- A bare run does not go on where a word ends. -/
theorem isBare_eq_false_of_endsWord
    {rest : Text}
    (ends : ∀ offset, endsWord ⟨rest, offset⟩ = true) :
    ∀ byte ∈ rest.head?, isBare byte = false := by
  have classified :
      ∀ byte : UInt8, (Byte.isSpace byte || Byte.isSeparator byte) = true →
        isBare byte = false := by
    apply Byte.of_codes
    decide +kernel
  cases rest with
  | nil =>
      simp
  | cons first more =>
      simpa using classified first (by simpa using ends 0)

/-- A written element is read back as one word. -/
theorem word_written
    (reader : Reader)
    (run : Run σ)
    (depth bound offset : Nat)
    (machine : Machine σ)
    (noError : machine.interpreter.error = none)
    (rest : Text)
    (ends : ∀ offset, endsWord ⟨rest, offset⟩ = true)
    (element : Text)
    (enough : (writeWord element).length ≤ bound) :
    word reader run (depth + 1) bound ⟨writeWord element ++ rest, offset⟩ [] machine =
      .ok (some (element, ⟨rest, offset + (writeWord element).length⟩)) machine := by
  cases needed : ListText.needsBraces element with
  | true =>
      have written :
          writeWord element =
            Byte.openBrace :: (element.flatMap guardByte ++ [Byte.closeBrace]) := by
        rw [writeWord, if_pos needed]
      rw [written] at enough ⊢
      simp only [List.length_cons, List.length_append, List.length_nil] at enough
      have read := word_braced reader run depth machine noError rest ends element [] bound offset
        [] (by simp) (by omega)
      simpa using read
  | false =>
      have written : writeWord element = element := by
        simp [writeWord, needed]
      rw [written] at enough ⊢
      cases element with
      | nil =>
          simp [ListText.needsBraces] at needed
      | cons first more =>
          obtain ⟨bound, rfl⟩ : ∃ fewer, bound = fewer + 1 :=
            ⟨bound - 1, by simp at enough; omega⟩
          have bare : ∀ byte ∈ first :: more, isBare byte = true :=
            fun byte member => (ListText.bare_of_not_needsBraces needed member).1
          have starts := (ListText.bare_of_not_needsBraces needed (List.mem_cons_self ..)).2
          have read := part_bare reader run depth offset machine starts bare
            (isBare_eq_false_of_endsWord ends)
          exact word_of_last bound [] read (by simp) (ends _)

/-- The words of a written list are its elements, in every reader. -/
theorem wordsFrom_written
    (reader : Reader)
    (run : Run σ)
    (depth : Nat)
    (machine : Machine σ)
    (noError : machine.interpreter.error = none)
    (elements : List Text) :
    ∀ (bound offset : Nat) (done : List Text),
      (ListText.write elements).length < bound →
      (ListText.write elements).length ≤ depth →
      wordsFrom reader run (depth + 1) bound ⟨ListText.write elements, offset⟩ done machine =
        .ok (some (done.reverse ++ elements, ⟨[], offset + (ListText.write elements).length⟩))
          machine := by
  induction elements with
  | nil =>
      intro bound offset done enough deep
      obtain ⟨bound, rfl⟩ : ∃ fewer, bound = fewer + 1 := ⟨bound - 1, by omega⟩
      have nothing : ListText.write [] = [] := rfl
      rw [wordsFrom, nothing]
      simp [-bind_pure_comp, Cursor.isDone]
  | cons element rest inductionHypothesis =>
      intro bound offset done enough deep
      obtain ⟨bound, rfl⟩ : ∃ fewer, bound = fewer + 1 := ⟨bound - 1, by omega⟩
      obtain ⟨first, more, starting, starts⟩ := ListText.write_startsWord element rest
      have notAtEnd :
          ((⟨ListText.write (element :: rest), offset⟩ : Cursor).isDone ||
            (!reader.acrossLines &&
              (⟨ListText.write (element :: rest), offset⟩ : Cursor).isOn Byte.isSeparator)) =
            false := by
        simp only [Source.startsWord, Bool.and_eq_true, Bool.not_eq_true'] at starts
        simp [starting, Cursor.isDone, Cursor.isOn, starts.1.1.2]
      rw [wordsFrom]
      simp only [notAtEnd, hasError_bind_apply, noError, Option.isSome_none, Bool.or_self,
        Bool.false_eq_true, if_false]
      have notEmpty : 0 < (ListText.write (element :: rest)).length := by
        simp [starting]
      cases rest with
      | nil =>
          rw [ListText.write_singleton] at deep enough notEmpty ⊢
          have read := word_written reader run depth (depth + 1) offset machine noError
            [] (by simp) element (by omega)
          rw [List.append_nil] at read
          have skipped :
              skipBlanks reader ⟨[], offset + (writeWord element).length⟩ machine =
                .ok ⟨[], offset + (writeWord element).length⟩ machine :=
            skipBlanks_apply (Source.skipFrom_plain_nil _ _)
          have finished := inductionHypothesis bound (offset + (writeWord element).length)
            (element :: done) (show 0 < bound by omega) (Nat.zero_le depth)
          rw [bind_of_ok read]
          simp only
          rw [bind_of_ok skipped]
          refine finished.trans ?_
          simp [ListText.write, Text.joinSpaced, Text.joinWith]
      | cons second others =>
          rw [ListText.write_cons_cons] at deep enough ⊢
          simp only [List.length_append, List.length_cons] at deep enough ⊢
          have read := word_written reader run depth (depth + 1) offset machine noError
            (Byte.space :: ListText.write (second :: others)) (by simp; decide) element
            (by omega)
          obtain ⟨next, others', nextShape, nextStarts⟩ :=
            ListText.write_startsWord second others
          have skipped :
              skipBlanks reader
                  ⟨Byte.space :: ListText.write (second :: others),
                    offset + (writeWord element).length⟩ machine =
                .ok ⟨ListText.write (second :: others),
                  offset + (writeWord element).length + 1⟩ machine := by
            apply skipBlanks_apply
            rw [Source.skipBlanks, Source.skipFrom_space, nextShape]
            exact Source.skipFrom_of_startsWord _ _ _ nextStarts
          have finished := inductionHypothesis bound (offset + (writeWord element).length + 1)
            (element :: done) (by omega) (by omega)
          rw [bind_of_ok read]
          simp only
          rw [bind_of_ok skipped]
          refine finished.trans ?_
          simp
          omega

/-- Before the text of a list nothing is skipped. -/
theorem skipBlanks_written
    (reader : Reader)
    (elements : List Text)
    (machine : Machine σ) :
    skipBlanks reader (.start (ListText.write elements)) machine =
      .ok (.start (ListText.write elements)) machine := by
  cases elements with
  | nil =>
      exact skipBlanks_apply (Source.skipFrom_plain_nil _ _)
  | cons element rest =>
      obtain ⟨first, more, starting, starts⟩ := ListText.write_startsWord element rest
      rw [Cursor.start, starting]
      exact skipBlanks_of_startsWord reader more 0 starts machine

/-- Reading the text of a list gives the elements and leaves nothing unread. -/
theorem words_written
    (reader : Reader)
    (run : Run σ)
    (bound : Nat)
    (machine : Machine σ)
    (noError : machine.interpreter.error = none)
    (elements : List Text)
    (enough : (ListText.write elements).length < bound) :
    words reader run bound (.start (ListText.write elements)) machine =
      .ok (some (elements, ⟨[], (ListText.write elements).length⟩)) machine := by
  obtain ⟨bound, rfl⟩ : ∃ fewer, bound = fewer + 1 := ⟨bound - 1, by omega⟩
  have read := wordsFrom_written reader run bound machine noError elements (bound + 1) 0 []
    enough (by omega)
  rw [words, bind_of_ok (skipBlanks_written reader elements machine)]
  simpa [Cursor.start] using read

/-! ## Running the text of a list -/

/-- Running the text of a list calls it as one command. -/
theorem runText_written
    (run : Run σ)
    (rounds : Nat)
    (outermost : Bool)
    (name : Text)
    (arguments : List Text)
    {machine : Machine σ}
    (noError : machine.interpreter.error = none)
    (uncancelled :
      machine.interpreter.context = .running → machine.world.cancellation = none) :
    runText run rounds ⟨outermost, false⟩ (ListText.write (name :: arguments)) machine =
      dispatch run rounds (name :: arguments) (marked machine 0) := by
  obtain ⟨first, more, starting, -⟩ := ListText.write_startsWord name arguments
  have going : (Cursor.start (ListText.write (name :: arguments))).isDone = false := by
    simp [Cursor.start, Cursor.isDone, starting]
  have read := words_written ⟨outermost, false⟩ run
    ((ListText.write (name :: arguments)).length + 1) (marked machine 0) noError
    (name :: arguments) (Nat.lt_succ_self _)
  rw [runText, bind_of_ok (skipBlanks_written _ _ machine)]
  exact commands_of_whole rounds (ListText.write (name :: arguments)).length going (by simp) []
    noError uncancelled read noError

/--
Writing a list and reading it back gives the list.  A reader of lists does so without running
anything, for `run` is arbitrary; a reader of commands takes the text as one command, which ends
where the text does, so that running the text calls that command and nothing else.
-/
theorem written_list_reads_back
    (run : Run σ)
    (machine : Machine σ)
    (noError : machine.interpreter.error = none)
    (elements : List Text) :
    readList run (ListText.write elements) machine = .ok elements machine ∧
      ∀ (outermost : Bool) (bound : Nat),
        (ListText.write elements).length < bound →
        words ⟨outermost, false⟩ run bound (.start (ListText.write elements)) machine =
            .ok (some (elements, ⟨[], (ListText.write elements).length⟩)) machine ∧
          (elements ≠ [] →
            (machine.interpreter.context = .running → machine.world.cancellation = none) →
            ∀ (rounds : Nat) (last : Text),
              commands run rounds ⟨outermost, false⟩ bound bound
                  (.start (ListText.write elements)) last machine =
                dispatch run rounds elements (marked machine 0)) := by
  constructor
  · have read := words_written ⟨false, true⟩ run ((ListText.write elements).length + 1) machine
      noError elements (by omega)
    rw [readList, bind_of_ok read]
    rfl
  · intro outermost bound enough
    refine ⟨words_written ⟨outermost, false⟩ run bound machine noError elements enough, ?_⟩
    intro named uncancelled rounds last
    obtain ⟨fewer, rfl⟩ : ∃ fewer, bound = fewer + 1 := ⟨bound - 1, by omega⟩
    have going : (Cursor.start (ListText.write elements)).isDone = false := by
      cases elements with
      | nil =>
          exact (named rfl).elim
      | cons element rest =>
          obtain ⟨first, more, starting, -⟩ := ListText.write_startsWord element rest
          simp [Cursor.start, Cursor.isDone, starting]
    have read := words_written ⟨outermost, false⟩ run (fewer + 1) (marked machine 0) noError
      elements enough
    exact commands_of_whole rounds fewer going named last noError uncancelled read
      noError

/-- A list with an empty element, braces, marks, a line break and bytes that are no characters. -/
def awkwardList : List Text :=
  [[], [Byte.closeBrace, Byte.openBrace, Byte.doubleQuote, Byte.backslash],
    [Byte.dollar, Byte.openBracket, Byte.semicolon, Byte.hash, Byte.newline], [0x00, 0xff]]

/-- The awkward list is read back by a fresh interpreter, and called as one command. -/
theorem written_list_reads_back_awkward :
    (Machine.start () {} {}).interpreter.error = none ∧
      (ListText.write awkwardList).length < 64 ∧
      readList runCode (ListText.write awkwardList) (Machine.start () {} {}) =
        .ok awkwardList (Machine.start () {} {}) ∧
      commands runCode 9 ⟨true, false⟩ 64 64 (.start (ListText.write awkwardList)) []
          (Machine.start () {} {}) =
        dispatch runCode 9 awkwardList (marked (Machine.start () {} {}) 0) := by
  have readsBack := written_list_reads_back runCode (Machine.start () {} {}) rfl awkwardList
  have short : (ListText.write awkwardList).length < 64 := by decide
  exact ⟨rfl, short, readsBack.1,
    (readsBack.2 true 64 short).2 (by decide) (by intro _; rfl) 9 []⟩

end Eval

end LittleScript
