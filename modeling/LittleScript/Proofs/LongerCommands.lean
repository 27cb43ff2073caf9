import LittleScript.Proofs.LongerText

namespace LittleScript.Eval

/-!
# Reading the commands of a longer text

Words, commands and whole texts are read alike when a line break and trivia follow the text, up to
where the shorter text ends.  From there on the longer text only has rounds without a command.
-/

open Source (Cursor Skips)

variable {σ : Type}

/-- A word whose first part takes nothing is an error. -/
theorem word_of_unmoved
    {reader : Reader}
    {run : Run σ}
    {depth : Nat}
    (bound : Nat)
    {cursor after : Cursor}
    {value : Text}
    (done : Text)
    {machine between : Machine σ}
    (read : part reader run depth cursor machine = .ok (value, after) between)
    (unmoved : after.offset = cursor.offset) :
    ∃ final, word reader run depth (bound + 1) cursor done machine = .ok none final ∧
      final.interpreter.error ≠ none ∧
      final.interpreter.active = between.interpreter.active := by
  obtain ⟨final, reported, pending, active⟩ :=
    malformed_pending reader cursor.offset (.strayCloser (cursor.rest.headD 0)) between
  refine ⟨final, ?_, pending, active⟩
  rw [word, bind_of_ok read]
  simp only [unmoved, beq_self_eq_true, if_true]
  rw [bind_of_ok reported]
  rfl

/-- An error in a part ends the word. -/
theorem word_of_pending
    {reader : Reader}
    {run : Run σ}
    {depth : Nat}
    (bound : Nat)
    {cursor after : Cursor}
    {value : Text}
    (done : Text)
    {machine final : Machine σ}
    (read : part reader run depth cursor machine = .ok (value, after) final)
    (moved : after.offset ≠ cursor.offset)
    (pending : final.interpreter.error ≠ none) :
    word reader run depth (bound + 1) cursor done machine =
      .ok (some (done.reverse ++ value, after)) final := by
  have failed : final.interpreter.error.isSome = true := Option.isSome_iff_ne_none.mpr pending
  rw [word, bind_of_ok read]
  simp [-bind_pure_comp, moved, failed]

/-- A line break behind a text ends a word where the text does. -/
theorem endsWord_append
    (tail more : Text)
    (stop start : Nat) :
    endsWord ⟨tail ++ Byte.newline :: more, stop⟩ = endsWord ⟨tail, start⟩ := by
  cases tail with
  | nil => rfl
  | cons byte rest => rfl

theorem endsWord_of_atBreak
    {cursor : Cursor}
    (atBreak : Source.atBreak cursor.rest = true) :
    endsWord cursor = true := by
  obtain ⟨rest, offset⟩ := cursor
  cases rest with
  | nil => rfl
  | cons byte rest =>
      have separator : Byte.isSeparator byte = true := atBreak
      simp [separator]

section Lines

variable {reader : Reader} (lines : reader.acrossLines = false)

include lines

theorem word_extends
    {run : Run σ}
    (nestable : Nestable run)
    {more : Text}
    (trivia : Source.isTrivia more = true)
    (depth longDepth bound : Nat) :
    ∀ (longBound : Nat) (text : Text) (offset : Nat) (done : Text) (machine final : Machine σ)
      (result : Option (Text × Cursor)),
      text ≠ [] →
      Fits more text bound longBound →
      Fits more text (depth + 1) (longDepth + 1) →
      text.getLast? ≠ some Byte.backslash →
      machine.interpreter.active ≠ [] →
      word reader run (depth + 1) bound ⟨text, offset⟩ done machine = .ok result final →
      final.interpreter.active = machine.interpreter.active ∧
        (final.interpreter.error = none →
          ∃ value after longer, result = some (value, after) ∧
            word reader run (longDepth + 1) longBound ⟨text ++ Byte.newline :: more, offset⟩ done
              machine = .ok (some (value, longer)) final ∧
            Reads more text offset (Source.wordTail (depth + 1) bound text) after longer ∧
            after.rest.length < text.length) := by
  induction bound with
  | zero =>
      intro longBound text offset done machine final result notEmpty fits
      exact absurd fits.enough (Nat.not_lt_zero _)
  | succ bound inductionHypothesis =>
      intro longBound text offset done machine final result notEmpty fits deep noBackslash busy ran
      obtain ⟨longBound, rfl⟩ := fits.long_succ
      obtain ⟨found, between, readPart, _⟩ := bind_eq_ok ran
      obtain ⟨value, after⟩ := found
      obtain ⟨active, same⟩ := part_extends lines nestable trivia (depth + 1) (longDepth + 1) text
        offset machine deep noBackslash busy value after between readPart
      by_cases unmoved : after.offset = offset
      · obtain ⟨failed, ranFailed, pending, activeFailed⟩ :=
          word_of_unmoved bound done readPart unmoved
        rw [ranFailed] at ran
        cases ran
        exact ⟨activeFailed.trans active, fun noError => absurd noError pending⟩
      by_cases noErrorBetween : between.interpreter.error = none
      case neg =>
        rw [word_of_pending bound done readPart unmoved noErrorBetween] at ran
        cases ran
        exact ⟨active, fun noError => absurd noError noErrorBetween⟩
      obtain ⟨longer, readLonger, reads⟩ := same noErrorBetween
      rcases reads.cases with ⟨stop, rfl, rfl⟩ | ⟨stop, rfl, skips, skipsMore⟩
      · have suffix := reads.suffix
        have sized := reads.sized
        have shorter := suffix.length_le
        simp only at suffix sized shorter unmoved
        generalize tailIs : Source.partTail (depth + 1) text = tail at *
        have longEnds := endsWord_append tail more stop stop
        cases ends : endsWord ⟨tail, stop⟩ with
        | true =>
            rw [word_of_last bound done readPart unmoved ends] at ran
            cases ran
            have ranLonger := word_of_last longBound done readLonger unmoved (longEnds.trans ends)
            refine ⟨active, fun _ => ⟨_, _, _, rfl, ranLonger, ?_, by simp only; omega⟩⟩
            have tailEnds : endsWord ⟨tail, 0⟩ = true := ends
            rw [Source.wordTail, tailIs]
            simpa [tailEnds] using reads
        | false =>
            have tailNotEmpty : tail ≠ [] := by
              rintro rfl
              cases ends
            have less : tail.length < text.length := by omega
            have fitsTail := fits.later less
            obtain ⟨bound, rfl⟩ :=
              Nat.exists_eq_add_one_of_ne_zero (Nat.ne_zero_of_lt fitsTail.enough)
            rw [word_of_more (bound + 1) done readPart unmoved ends noErrorBetween] at ran
            obtain ⟨activeNext, sameNext⟩ := inductionHypothesis longBound tail stop _ between
              final result tailNotEmpty fitsTail (deep.of_le shorter)
              (Source.getLast?_ne_of_suffix suffix noBackslash) (by rwa [active]) ran
            refine ⟨activeNext.trans active, fun noError => ?_⟩
            obtain ⟨word, after, longest, rfl, ranLonger, readsNext, lessNext⟩ := sameNext noError
            refine ⟨word, after, longest, rfl, ?_, ?_, Nat.lt_trans lessNext less⟩
            · rw [word_of_more longBound done readLonger unmoved (longEnds.trans ends)
                noErrorBetween]
              exact ranLonger
            · have tailGoesOn : endsWord ⟨tail, 0⟩ = false := ends
              rw [Source.wordTail_succ, tailIs, tailGoesOn]
              exact readsNext.later suffix sized
      · obtain ⟨suffix, _, atBreak⟩ := skips.trivia_of_append trivia skipsMore
        have longerSized := reads.longerSized
        have shorter := suffix.length_le
        have positive := List.length_pos_iff.mpr notEmpty
        simp only [List.length_cons] at shorter
        have moved : longer.offset ≠ offset := by omega
        rw [word_of_last bound done readPart unmoved rfl] at ran
        cases ran
        have ranLonger :=
          word_of_last longBound done readLonger moved (endsWord_of_atBreak atBreak)
        refine ⟨active, fun _ => ⟨_, _, _, rfl, ranLonger, ?_, positive⟩⟩
        rw [Source.wordTail, skips.pastBlanks_eq]
        simpa using reads

/-! ## Commands -/

/-- Line by line the words of a command end before a separator or the end. -/
theorem endsCommand_eq
    (cursor : Cursor) :
    (cursor.isDone || (!reader.acrossLines && cursor.isOn Byte.isSeparator)) =
      Source.atBreak cursor.rest := by
  obtain ⟨rest, offset⟩ := cursor
  cases rest with
  | nil => rfl
  | cons byte rest => simp [lines, Cursor.isDone, Cursor.isOn, Source.atBreak]

/-- There are no more words before a separator or the end. -/
theorem wordsFrom_of_atBreak
    (run : Run σ)
    (depth bound : Nat)
    {text : Text}
    (atBreak : Source.atBreak text = true)
    (offset : Nat)
    (done : List Text)
    (machine : Machine σ) :
    wordsFrom reader run depth bound ⟨text, offset⟩ done machine =
      .ok (some (done.reverse, ⟨text, offset⟩)) machine := by
  cases bound with
  | zero =>
      rfl
  | succ bound =>
      rw [wordsFrom]
      simp [-bind_pure_comp, endsCommand_eq lines, atBreak]

omit lines in
/-- No words are read while an error is pending. -/
theorem wordsFrom_of_pending
    (run : Run σ)
    (depth bound : Nat)
    (cursor : Cursor)
    (done : List Text)
    {machine : Machine σ}
    (pending : machine.interpreter.error ≠ none) :
    wordsFrom reader run depth bound cursor done machine =
      .ok (some (done.reverse, cursor)) machine := by
  have failed : machine.interpreter.error.isSome = true := Option.isSome_iff_ne_none.mpr pending
  cases bound with
  | zero =>
      rfl
  | succ bound =>
      rw [wordsFrom]
      simp [-bind_pure_comp, failed]

/-- Read the next word and then the others. -/
def wordAndRest (reader : Reader) (run : Run σ) (depth bound : Nat) (cursor : Cursor)
    (done : List Text) : Eval σ (Option (List Text × Cursor)) := do
  match ← word reader run depth depth cursor [] with
  | none => return none
  | some (value, after) =>
      let after ← skipBlanks reader after
      wordsFrom reader run depth bound after (value :: done)

theorem wordsFrom_of_going
    (run : Run σ)
    (depth bound : Nat)
    {cursor : Cursor}
    (going : Source.atBreak cursor.rest = false)
    (done : List Text)
    {machine : Machine σ}
    (noError : machine.interpreter.error = none) :
    wordsFrom reader run depth (bound + 1) cursor done machine =
      wordAndRest reader run depth bound cursor done machine := by
  rw [wordsFrom]
  simp only [hasError_bind_apply, endsCommand_eq lines, going, noError, Option.isSome_none,
    Bool.or_self, Bool.false_eq_true, if_false]
  rfl

/-- An error that is pending stays so while blanks are skipped. -/
theorem skipBlanks_of_pending
    (cursor : Cursor)
    {machine : Machine σ}
    (pending : machine.interpreter.error ≠ none) :
    ∃ place after, skipBlanks reader cursor machine = .ok place after ∧
      after.interpreter.error ≠ none ∧
      after.interpreter.active = machine.interpreter.active := by
  rcases skipBlanks_cases lines cursor machine with
    ⟨rest, _, skipped⟩ | ⟨offset, after, skipped, stillPending, active⟩
  · exact ⟨_, machine, skipped, pending, rfl⟩
  · exact ⟨_, after, skipped, stillPending, active⟩

omit lines in
/--
Where the blanks behind `tail` end: at `after` in the text itself, and at `longer` when a line break
and `more` follow the text.
-/
structure PastBlanks (more text : Text) (offset : Nat) (tail : Text) (after longer : Cursor) :
    Prop where
  suffix : after.rest <:+ text
  sized : after.offset + after.rest.length = offset + text.length
  skips : Skips .plain tail after.rest
  skipsMore : Skips .plain (tail ++ Byte.newline :: more) longer.rest
  inside : after.rest ≠ [] → longer = ⟨after.rest ++ Byte.newline :: more, after.offset⟩

/-- Skipping the blanks behind a reading, unless a comment never ends. -/
theorem skipBlanks_extends
    {more text tail : Text}
    {offset : Nat}
    {read longRead : Cursor}
    (trivia : Source.isTrivia more = true)
    (noBackslash : text.getLast? ≠ some Byte.backslash)
    (reads : Reads more text offset tail read longRead)
    (machine : Machine σ) :
    (∃ place failed, skipBlanks reader read machine = .ok place failed ∧
        failed.interpreter.error ≠ none ∧
        failed.interpreter.active = machine.interpreter.active) ∨
      ∃ after longer, skipBlanks reader read machine = .ok after machine ∧
        skipBlanks reader longRead machine = .ok longer machine ∧
        PastBlanks more text offset tail after longer ∧
        after.rest.length ≤ read.rest.length := by
  have suffix := reads.suffix
  have sized := reads.sized
  rcases reads.cases with ⟨stop, rfl, rfl⟩ | ⟨stop, rfl, skips, skipsMore⟩
  · simp only at suffix sized
    rcases skipBlanks_cases lines ⟨tail, stop⟩ machine with
      ⟨rest, skips, skipped⟩ | ⟨place, failed, skipped, failure⟩
    · right
      simp only at skips skipped
      have shorter := skips.suffix.length_le
      have past : ∀ longer : Cursor, Skips .plain (tail ++ Byte.newline :: more) longer.rest →
          (rest ≠ [] → longer =
            ⟨rest ++ Byte.newline :: more, stop + (tail.length - rest.length)⟩) →
          PastBlanks more text offset tail ⟨rest, stop + (tail.length - rest.length)⟩ longer :=
        fun longer skipsMore inside =>
          ⟨skips.suffix.trans suffix, by simp only; omega, skips, skipsMore, inside⟩
      by_cases ended : rest = []
      · subst ended
        obtain ⟨place, skipsMore, _⟩ := skips.append_trivia trivia
        exact ⟨_, _, skipped, skipBlanks_of_skips lines skipsMore stop machine,
          past _ skipsMore fun inside => absurd rfl inside, shorter⟩
      · have noBackslashTail := Source.getLast?_ne_of_suffix suffix noBackslash
        have skipsMore := skips.append_inside ended noBackslashTail more
        have longSkipped := skipBlanks_of_skips lines skipsMore stop machine
        simp only [List.length_append, Nat.add_sub_add_right] at longSkipped
        exact ⟨_, _, skipped, longSkipped, past _ skipsMore fun _ => rfl, shorter⟩
    · exact .inl ⟨_, failed, skipped, failure⟩
  · right
    obtain ⟨_, _, atBreak⟩ := skips.trivia_of_append trivia skipsMore
    have atEnd : Skips .plain [] [] := .ended (by simp)
    have settled := Source.skips_of_atBreak atBreak
    refine ⟨_, _, skipBlanks_of_skips lines atEnd stop machine,
      skipBlanks_of_skips lines settled longRead.offset machine, ?_, Nat.le_refl _⟩
    exact ⟨List.nil_suffix, by simpa using sized, skips, skipsMore,
      fun inside => absurd rfl inside⟩

omit lines in
/-- Behind the words of a command the blanks end before a separator or the end. -/
structure CommandReads (more text : Text) (offset : Nat) (tail : Text) (after longer : Cursor) :
    Prop extends PastBlanks more text offset tail after longer where
  atBreak : Source.atBreak after.rest = true

omit lines in
/-- A command that starts later in a text is read from the text. -/
theorem CommandReads.later
    {more text later tail : Text}
    {offset start : Nat}
    {after longer : Cursor}
    (reads : CommandReads more later start tail after longer)
    (suffix : later <:+ text)
    (sized : start + later.length = offset + text.length) :
    CommandReads more text offset tail after longer :=
  { reads with
    suffix := reads.suffix.trans suffix
    sized := reads.sized.trans sized }

omit lines in
/-- In the longer text, too, a command ends before a separator or the end. -/
theorem CommandReads.longer_atBreak
    {more text tail : Text}
    {offset : Nat}
    {after longer : Cursor}
    (trivia : Source.isTrivia more = true)
    (reads : CommandReads more text offset tail after longer) :
    Source.atBreak longer.rest = true := by
  by_cases left : after.rest = []
  · have skips := reads.skips
    rw [left] at skips
    exact (skips.trivia_of_append trivia reads.skipsMore).2.2
  · have atBreak := reads.atBreak
    rw [reads.inside left]
    cases shape : after.rest with
    | nil => exact absurd shape left
    | cons byte rest =>
        rw [shape] at atBreak
        exact atBreak

/-- Both readers pass the blanks behind a word and stand at a break or at the next word. -/
theorem wordsFrom_extends
    {run : Run σ}
    (nestable : Nestable run)
    {more : Text}
    (trivia : Source.isTrivia more = true)
    (depth longDepth bound : Nat) :
    ∀ (longBound : Nat) (text : Text) (offset : Nat) (done : List Text)
      (machine final : Machine σ) (result : Option (List Text × Cursor)),
      Source.atBreak text = false →
      Fits more text bound longBound →
      Fits more text (depth + 1) (longDepth + 1) →
      text.getLast? ≠ some Byte.backslash →
      machine.interpreter.active ≠ [] →
      wordsFrom reader run (depth + 1) bound ⟨text, offset⟩ done machine = .ok result final →
      final.interpreter.active = machine.interpreter.active ∧
        (final.interpreter.error = none →
          ∃ command after longer, result = some (command, after) ∧ command ≠ [] ∧
            wordsFrom reader run (longDepth + 1) longBound ⟨text ++ Byte.newline :: more, offset⟩
              done machine = .ok (some (command, longer)) final ∧
            CommandReads more text offset (Source.commandTail (depth + 1) bound text) after
              longer ∧
            after.rest.length < text.length) := by
  induction bound with
  | zero =>
      intro longBound text offset done machine final result going fits
      exact absurd fits.enough (Nat.not_lt_zero _)
  | succ bound inductionHypothesis =>
      intro longBound text offset done machine final result going fits deep noBackslash busy ran
      obtain ⟨longBound, rfl⟩ := fits.long_succ
      have notEmpty : text ≠ [] := by
        rintro rfl
        cases going
      have longGoing : Source.atBreak (text ++ Byte.newline :: more) = false := by
        cases text with
        | nil => cases going
        | cons byte rest => exact going
      by_cases noErrorBefore : machine.interpreter.error = none
      case neg =>
        rw [wordsFrom_of_pending run _ _ _ done noErrorBefore] at ran
        cases ran
        exact ⟨rfl, fun noError => absurd noError noErrorBefore⟩
      rw [wordsFrom_of_going lines run _ _ going done noErrorBefore] at ran
      obtain ⟨found, between, readWord, ranRest⟩ := bind_eq_ok ran
      obtain ⟨active, same⟩ := word_extends lines nestable trivia depth longDepth (depth + 1)
        (longDepth + 1) text offset [] machine between found notEmpty deep deep noBackslash busy
        readWord
      by_cases noErrorBetween : between.interpreter.error = none
      case neg =>
        cases found with
        | none =>
            cases ranRest
            exact ⟨active, fun noError => absurd noError noErrorBetween⟩
        | some read =>
            obtain ⟨place, after, skipped, pending, activeAfter⟩ :=
              skipBlanks_of_pending lines read.2 noErrorBetween
            simp only [bind_of_ok skipped, wordsFrom_of_pending run _ _ _ _ pending] at ranRest
            cases ranRest
            exact ⟨activeAfter.trans active, fun noError => absurd noError pending⟩
      obtain ⟨value, read, longRead, rfl, readLonger, reads, less⟩ := same noErrorBetween
      have longer : wordsFrom reader run (longDepth + 1) (longBound + 1)
          ⟨text ++ Byte.newline :: more, offset⟩ done machine =
            (skipBlanks reader longRead >>= fun place =>
              wordsFrom reader run (longDepth + 1) longBound place (value :: done)) between := by
        rw [wordsFrom_of_going lines run _ _ longGoing done noErrorBefore, wordAndRest,
          bind_of_ok readLonger]
      rw [longer]
      rcases skipBlanks_extends lines trivia noBackslash reads between with
        ⟨place, failed, skipped, pending, activeFailed⟩ |
        ⟨place, longPlace, skipped, longSkipped, past, shorter⟩
      · simp only [bind_of_ok skipped, wordsFrom_of_pending run _ _ _ _ pending] at ranRest
        cases ranRest
        exact ⟨activeFailed.trans active, fun noError => absurd noError pending⟩
      · simp only [bind_of_ok skipped] at ranRest
        rw [bind_of_ok longSkipped, Source.commandTail, past.skips.pastBlanks_eq]
        cases atBreak : Source.atBreak place.rest with
        | true =>
            have ends : CommandReads more text offset
                (Source.wordTail (depth + 1) (depth + 1) text) place longPlace :=
              { past with atBreak }
            rw [wordsFrom_of_atBreak lines run _ _ atBreak] at ranRest
            cases ranRest
            refine ⟨active, fun _ => ⟨_, _, _, rfl, by simp, ?_, ends,
              Nat.lt_of_le_of_lt shorter less⟩⟩
            exact wordsFrom_of_atBreak lines run _ _ (ends.longer_atBreak trivia) _ _ _
        | false =>
            have left : place.rest ≠ [] := by
              intro nothing
              rw [nothing] at atBreak
              cases atBreak
            have lessPlace := Nat.lt_of_le_of_lt shorter less
            rw [past.inside left]
            obtain ⟨activeNext, sameNext⟩ := inductionHypothesis longBound place.rest place.offset
              _ between final result atBreak (fits.later lessPlace)
              (deep.of_le (Nat.le_of_lt lessPlace))
              (Source.getLast?_ne_of_suffix past.suffix noBackslash) (by rwa [active]) ranRest
            refine ⟨activeNext.trans active, fun noError => ?_⟩
            obtain ⟨command, after, longest, rfl, named, ranLonger, ends, lessNext⟩ :=
              sameNext noError
            exact ⟨command, after, longest, rfl, named, ranLonger,
              ends.later past.suffix past.sized, Nat.lt_trans lessNext lessPlace⟩

/-- The words of a round, which are none before a separator. -/
theorem words_extends
    {run : Run σ}
    (nestable : Nestable run)
    {more : Text}
    (trivia : Source.isTrivia more = true)
    {depth longDepth : Nat}
    {text : Text}
    {offset : Nat}
    {machine final : Machine σ}
    {result : Option (List Text × Cursor)}
    (notEmpty : text ≠ [])
    (settled : Skips .plain text text)
    (deep : Fits more text (depth + 1) (longDepth + 1))
    (noBackslash : text.getLast? ≠ some Byte.backslash)
    (busy : machine.interpreter.active ≠ [])
    (ran : words reader run (depth + 1) ⟨text, offset⟩ machine = .ok result final)
    (noError : final.interpreter.error = none) :
    ∃ command after longer, result = some (command, after) ∧
      words reader run (longDepth + 1) ⟨text ++ Byte.newline :: more, offset⟩ machine =
        .ok (some (command, longer)) final ∧
      CommandReads more text offset (Source.roundTail (depth + 1) text) after longer ∧
      command.isEmpty = Source.atBreak text ∧
      (after.rest.dropWhile Byte.isSeparator).length < text.length := by
  have skipped := skipBlanks_of_skips lines settled offset machine
  have settledMore := settled.append_inside notEmpty noBackslash more
  have longSkipped := skipBlanks_of_skips lines settledMore offset machine
  rw [Nat.sub_self, Nat.add_zero] at skipped longSkipped
  rw [words, bind_of_ok skipped] at ran
  rw [words, bind_of_ok longSkipped, Source.roundTail]
  cases atBreak : Source.atBreak text with
  | true =>
      have longAtBreak : Source.atBreak (text ++ Byte.newline :: more) = true := by
        cases text with
        | nil => exact absurd rfl notEmpty
        | cons byte rest => exact atBreak
      rw [wordsFrom_of_atBreak lines run _ _ atBreak] at ran
      cases ran
      refine ⟨[], _, _, rfl, wordsFrom_of_atBreak lines run _ _ longAtBreak _ _ _, ?_, rfl, ?_⟩
      · exact ⟨⟨List.suffix_rfl, rfl, settled, settledMore, fun _ => rfl⟩, atBreak⟩
      · exact Source.length_dropWhile_lt notEmpty atBreak
  | false =>
      obtain ⟨_, same⟩ := wordsFrom_extends lines nestable trivia depth longDepth (depth + 1)
        (longDepth + 1) text offset [] machine final result atBreak deep deep noBackslash busy ran
      obtain ⟨command, after, longer, rfl, named, ranLong, reads, less⟩ := same noError
      refine ⟨command, after, longer, rfl, ranLong, reads, by simpa using named, ?_⟩
      exact Nat.lt_of_le_of_lt (List.dropWhile_suffix Byte.isSeparator).length_le less

/-- Moving on to the next command where separators and blanks reach from one place to another. -/
theorem nextCommand_of_skips
    {text rest : Text}
    (atBreak : Source.atBreak text = true)
    (skips : Skips .plain (text.dropWhile Byte.isSeparator) rest)
    (offset : Nat)
    (machine : Machine σ) :
    nextCommand reader ⟨text, offset⟩ machine =
      .ok ⟨rest, offset + (text.length - rest.length)⟩ machine := by
  have settled := skipBlanks_of_skips lines (Source.skips_of_atBreak atBreak) offset machine
  have parts := congrArg List.length
    (List.takeWhile_append_dropWhile (p := Byte.isSeparator) (l := text))
  have shorter := skips.suffix.length_le
  rw [List.length_append] at parts
  rw [Nat.sub_self, Nat.add_zero] at settled
  rw [nextCommand, bind_of_ok settled]
  simp only
  rw [skipBlanks_of_skips lines skips]
  have sameOffset :
      offset + (text.takeWhile Byte.isSeparator).length +
          ((text.dropWhile Byte.isSeparator).length - rest.length) =
        offset + (text.length - rest.length) := by
    omega
  rw [sameOffset]

/-- Moving on from a separator reaches a place, or leaves an error about a comment. -/
theorem nextCommand_cases
    {text : Text}
    (atBreak : Source.atBreak text = true)
    (offset : Nat)
    (machine : Machine σ) :
    (∃ rest, Skips .plain (text.dropWhile Byte.isSeparator) rest ∧
      nextCommand reader ⟨text, offset⟩ machine =
        .ok ⟨rest, offset + (text.length - rest.length)⟩ machine) ∨
      ∃ stop after, nextCommand reader ⟨text, offset⟩ machine = .ok ⟨[], stop⟩ after ∧
        after.interpreter.error ≠ none := by
  have settled := skipBlanks_of_skips lines (Source.skips_of_atBreak atBreak) offset machine
  rcases skipBlanks_cases lines
      ⟨text.dropWhile Byte.isSeparator,
        offset + (text.length - text.length) + (text.takeWhile Byte.isSeparator).length⟩ machine
    with ⟨rest, skips, _⟩ | ⟨stop, after, skipped, pending, _⟩
  · exact .inl ⟨rest, skips, nextCommand_of_skips lines atBreak skips offset machine⟩
  · refine .inr ⟨stop, after, ?_, pending⟩
    rw [nextCommand, bind_of_ok settled]
    exact skipped

/-- A next command in the text is the next one as well in the longer text. -/
theorem nextCommand_append_inside
    {more text tail rest : Text}
    {offset : Nat}
    {after longer : Cursor}
    (trivia : Source.isTrivia more = true)
    (noBackslash : text.getLast? ≠ some Byte.backslash)
    (reads : CommandReads more text offset tail after longer)
    (skips : Skips .plain (after.rest.dropWhile Byte.isSeparator) rest)
    (inside : rest ≠ [])
    (machine : Machine σ) :
    nextCommand reader longer machine =
      .ok ⟨rest ++ Byte.newline :: more, after.offset + (after.rest.length - rest.length)⟩
        machine := by
  have dropped : after.rest.dropWhile Byte.isSeparator ≠ [] := by
    intro nothing
    rw [nothing] at skips
    exact inside (List.suffix_nil.mp skips.suffix)
  have left : after.rest ≠ [] := by
    intro nothing
    rw [nothing] at dropped
    exact dropped rfl
  have atBreak := reads.longer_atBreak trivia
  have noBackslashDropped := Source.getLast?_ne_of_suffix
    ((List.dropWhile_suffix Byte.isSeparator).trans reads.suffix) noBackslash
  have skipsMore : Skips .plain
      ((after.rest ++ Byte.newline :: more).dropWhile Byte.isSeparator)
      (rest ++ Byte.newline :: more) := by
    rw [List.dropWhile_append, if_neg (by simpa using dropped)]
    exact skips.append_inside inside noBackslashDropped more
  rw [reads.inside left] at atBreak ⊢
  rw [nextCommand_of_skips lines atBreak skipsMore]
  simp only [List.length_append, Nat.add_sub_add_right]

/-- Where the text has no next command, the longer text has only trivia left. -/
theorem nextCommand_append_end
    {more text tail : Text}
    {offset : Nat}
    {after longer : Cursor}
    (trivia : Source.isTrivia more = true)
    (reads : CommandReads more text offset tail after longer)
    (skips : Skips .plain (after.rest.dropWhile Byte.isSeparator) [])
    (machine : Machine σ) :
    ∃ rest stop, Source.nextText (tail ++ Byte.newline :: more) = rest ∧
      nextCommand reader longer machine = .ok ⟨rest, stop⟩ machine ∧
      rest <:+ Byte.newline :: more ∧ Source.isTrivia rest = true ∧
      Source.atBreak rest = true := by
  have found : ∃ rest, Skips .plain (longer.rest.dropWhile Byte.isSeparator) rest ∧
      rest <:+ Byte.newline :: more ∧ Source.isTrivia rest = true ∧
      Source.atBreak rest = true := by
    by_cases left : after.rest = []
    · have skipsTail := reads.skips
      rw [left] at skipsTail
      obtain ⟨suffix, isTrivia, _⟩ := skipsTail.trivia_of_append trivia reads.skipsMore
      obtain ⟨rest, skipsRest, suffixRest, atBreak⟩ := Source.skips_dropWhile_of_trivia isTrivia
      exact ⟨rest, skipsRest, suffixRest.trans suffix, atBreak⟩
    · rw [reads.inside left]
      exact Source.skips_dropWhile_append trivia skips
  obtain ⟨rest, skipsRest, isTrivia⟩ := found
  have moved := nextCommand_of_skips lines (reads.longer_atBreak trivia) skipsRest longer.offset
    machine
  exact ⟨rest, _, Source.nextText_of_skips reads.skipsMore skipsRest, moved, isTrivia⟩

end Lines

end LittleScript.Eval
