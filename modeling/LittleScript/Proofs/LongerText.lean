import LittleScript.Proofs.LastCommand

namespace LittleScript.Eval

/-!
# Reading a longer text

What is read from a text without an error is read in the same way when a line break and trivia
follow the text.  The two readings go through the same machines, and their cursors stay at the same
place until the shorter text ends; only a blank stretch at its very end can take in more.
-/

open Source (Cursor Skips)

variable {σ : Type}

/-- How nested code treats what the reader relies on. -/
structure Nestable (run : Run σ) : Prop where
  active : ∀ {code ownResult machine value after},
    run code ownResult machine = .ok value after →
    after.interpreter.active = machine.interpreter.active
  error : ∀ {code machine value after},
    machine.interpreter.active ≠ [] →
    machine.interpreter.error ≠ none →
    run code false machine = .ok value after →
    after.interpreter.error ≠ none

/-- Reporting a flaw leaves an error pending. -/
theorem malformed_pending
    (reader : Reader)
    (offset : Nat)
    (flaw : Source.Flaw)
    (machine : Machine σ) :
    ∃ after, malformed reader offset flaw machine = .ok () after ∧
      after.interpreter.error ≠ none ∧
      after.interpreter.active = machine.interpreter.active := by
  rw [malformed]
  split
  · obtain ⟨error, world, raised⟩ := raiseAt_apply offset (.malformed flaw) machine
    exact ⟨_, raised, by simp, rfl⟩
  · obtain ⟨error, world, raised⟩ := raise_apply (.malformed flaw) machine
    exact ⟨_, raised, by simp, rfl⟩

/--
Where a reading that leaves `tail` ends: at `after` in the text itself, and at `longer` when a line
break and `more` follow the text.
-/
structure Reads (more text : Text) (offset : Nat) (tail : Text) (after longer : Cursor) :
    Prop where
  suffix : after.rest <:+ text
  sized : after.offset + after.rest.length = offset + text.length
  longerSized : longer.offset + longer.rest.length = offset + (text.length + (more.length + 1))
  follows :
    (after.rest = tail ∧ longer.rest = tail ++ Byte.newline :: more) ∨
      (after.rest = [] ∧ Skips .plain tail [] ∧
        Skips .plain (tail ++ Byte.newline :: more) longer.rest)

/-- A reading that starts later in a text is a reading of the text. -/
theorem Reads.later
    {more text later tail : Text}
    {offset start : Nat}
    {after longer : Cursor}
    (reads : Reads more later start tail after longer)
    (suffix : later <:+ text)
    (sized : start + later.length = offset + text.length) :
    Reads more text offset tail after longer where
  suffix := reads.suffix.trans suffix
  sized := reads.sized.trans sized
  longerSized := by
    have := reads.longerSized
    omega
  follows := reads.follows

/-- A reading that ends at a place of the text ends at the same place of the longer text. -/
theorem Reads.inside
    {more text tail : Text}
    {offset stop : Nat}
    (suffix : tail <:+ text)
    (sized : stop + tail.length = offset + text.length) :
    Reads more text offset tail ⟨tail, stop⟩ ⟨tail ++ Byte.newline :: more, stop⟩ where
  suffix := suffix
  sized := sized
  longerSized := by
    simp only [List.length_append, List.length_cons]
    omega
  follows := .inl ⟨rfl, rfl⟩

/-- Behind a group that ends in a text both readings are at the same place. -/
theorem Reads.behind
    {opener closer : UInt8}
    {text inside tail : Text}
    (found : Source.balanced? opener closer 0 text [] = some (inside, tail))
    (more : Text)
    (offset : Nat) :
    Reads more text offset tail ⟨tail, offset + inside.length + 1⟩
      ⟨tail ++ Byte.newline :: more, offset + inside.length + 1⟩ := by
  obtain ⟨suffix, sized⟩ := Source.balanced?_sized found
  rw [List.length_nil, Nat.zero_add] at sized
  exact .inside suffix (by omega)

/-- Either both readings end at the tail, or the text has only blanks left. -/
theorem Reads.cases
    {more text tail : Text}
    {offset : Nat}
    {after longer : Cursor}
    (reads : Reads more text offset tail after longer) :
    (∃ stop, after = ⟨tail, stop⟩ ∧ longer = ⟨tail ++ Byte.newline :: more, stop⟩) ∨
      ∃ stop, after = ⟨[], stop⟩ ∧ Skips .plain tail [] ∧
        Skips .plain (tail ++ Byte.newline :: more) longer.rest := by
  obtain ⟨rest, stop⟩ := after
  obtain ⟨longRest, longStop⟩ := longer
  rcases reads.follows with ⟨atTail, longAtTail⟩ | ⟨atEnd, skips⟩
  · have sized := reads.sized
    have longerSized := reads.longerSized
    simp only at atTail longAtTail sized longerSized
    rw [longAtTail, List.length_append, List.length_cons] at longerSized
    rw [atTail] at sized
    obtain rfl : longStop = stop := by omega
    exact .inl ⟨longStop, by rw [atTail], by rw [longAtTail]⟩
  · exact .inr ⟨stop, by rw [← atEnd], skips⟩

/-- Bounds that exceed the length of a text, and that of the longer one. -/
structure Fits (more text : Text) (bound longBound : Nat) : Prop where
  enough : text.length < bound
  longEnough : text.length + (more.length + 1) < longBound

theorem Fits.long_succ
    {more text : Text}
    {bound longBound : Nat}
    (fits : Fits more text bound longBound) :
    ∃ fewer, longBound = fewer + 1 :=
  Nat.exists_eq_add_one_of_ne_zero (Nat.ne_zero_of_lt fits.longEnough)

/-- Bounds that are large enough for a text are so for a part of it. -/
theorem Fits.of_le
    {more text later : Text}
    {bound longBound : Nat}
    (fits : Fits more text bound longBound)
    (shorter : later.length ≤ text.length) :
    Fits more later bound longBound where
  enough := Nat.lt_of_le_of_lt shorter fits.enough
  longEnough := Nat.lt_of_le_of_lt (Nat.add_le_add_right shorter _) fits.longEnough

/-- Every round may use up one of each bound, for it shortens the text. -/
theorem Fits.later
    {more text later : Text}
    {bound longBound : Nat}
    (fits : Fits more text (bound + 1) (longBound + 1))
    (shorter : later.length < text.length) :
    Fits more later bound longBound where
  enough := Nat.lt_of_lt_of_le shorter (Nat.le_of_lt_succ fits.enough)
  longEnough :=
    Nat.lt_of_lt_of_le (Nat.add_lt_add_right shorter _) (Nat.le_of_lt_succ fits.longEnough)

/-- A longer text is read like a shorter one, of which `tail` is left, unless an error comes up. -/
def Extends (more text : Text) (offset : Nat) (tail : Text)
    (short long : Eval σ (Text × Cursor)) (machine : Machine σ) : Prop :=
  ∀ value after final, short machine = .ok (value, after) final →
    final.interpreter.active = machine.interpreter.active ∧
      (final.interpreter.error = none →
        ∃ longer, long machine = .ok (value, longer) final ∧
          Reads more text offset tail after longer)

/-- A reading that reports a flaw is not compared any further. -/
theorem Extends.of_malformed
    {more text tail : Text}
    {offset start : Nat}
    {reader : Reader}
    {flaw : Source.Flaw}
    {read : Text × Cursor}
    {short long : Eval σ (Text × Cursor)}
    {machine : Machine σ}
    (reports : short machine = (malformed reader start flaw >>= fun _ => pure read) machine) :
    Extends more text offset tail short long machine := by
  intro value after final ran
  obtain ⟨reported, failed, pending, active⟩ := malformed_pending reader start flaw machine
  rw [reports, bind_of_ok failed] at ran
  cases ran
  exact ⟨active, fun noError => absurd noError pending⟩

theorem Extends.of_eq
    {more text tail : Text}
    {offset : Nat}
    {short long otherShort otherLong : Eval σ (Text × Cursor)}
    {machine : Machine σ}
    (reading : Extends more text offset tail short long machine)
    (sameShort : otherShort machine = short machine)
    (sameLong : otherLong machine = long machine) :
    Extends more text offset tail otherShort otherLong machine := by
  rw [Extends, sameShort, sameLong]
  exact reading

theorem Extends.later
    {more text later tail : Text}
    {offset start : Nat}
    {short long : Eval σ (Text × Cursor)}
    {machine : Machine σ}
    (reading : Extends more later start tail short long machine)
    (suffix : later <:+ text)
    (sized : start + later.length = offset + text.length) :
    Extends more text offset tail short long machine := by
  intro value after final ran
  obtain ⟨active, same⟩ := reading value after final ran
  refine ⟨active, fun noError => ?_⟩
  obtain ⟨longer, ranLong, reads⟩ := same noError
  exact ⟨longer, ranLong, reads.later suffix sized⟩

section Lines

variable {reader : Reader} (lines : reader.acrossLines = false)

include lines

/-- Skipping blanks reaches a place, or leaves an error about a comment that never ends. -/
theorem skipBlanks_cases
    (cursor : Cursor)
    (machine : Machine σ) :
    (∃ rest, Skips .plain cursor.rest rest ∧
      skipBlanks reader cursor machine =
        .ok ⟨rest, cursor.offset + (cursor.rest.length - rest.length)⟩ machine) ∨
      ∃ offset after, skipBlanks reader cursor machine = .ok ⟨[], offset⟩ after ∧
        after.interpreter.error ≠ none ∧
        after.interpreter.active = machine.interpreter.active := by
  cases skipped : Source.skipBlanks reader.acrossLines cursor with
  | mk place openComment =>
      cases openComment with
      | none =>
          left
          have ran : skipBlanks reader cursor machine = .ok place machine :=
            skipBlanks_apply skipped
          rw [Source.skipBlanks, lines] at skipped
          obtain ⟨skips, sized⟩ := Source.skips_of_skipFrom _ _ _ _ _ (Nat.lt_succ_self _) skipped
          have shorter := skips.suffix.length_le
          have placed :
              place.offset = cursor.offset + (cursor.rest.length - place.rest.length) := by
            omega
          exact ⟨place.rest, skips, by rw [ran, ← placed]⟩
      | some start =>
          right
          obtain ⟨after, reported, pending, active⟩ :=
            malformed_pending reader start .openComment machine
          have atEnd : place.rest = [] := by
            rw [Source.skipBlanks, lines] at skipped
            have opened :
                (Source.skipFrom false .plain cursor.rest cursor.offset).openComment =
                  some start := by
              rw [skipped]
            have ended := Source.rest_of_openComment _ _ _ _ opened
            rwa [skipped] at ended
          refine ⟨place.offset, after, ?_, pending, active⟩
          rw [skipBlanks]
          simp only [skipped]
          rw [bind_of_ok reported, ← atEnd]
          rfl

end Lines

/-! ## Parts -/

/-- A separator opens no part. -/
theorem isSeparator_opens
    {byte : UInt8}
    (separator : Byte.isSeparator byte = true) :
    byte ≠ Byte.dollar ∧ byte ≠ Byte.openBrace ∧ byte ≠ Byte.openBracket ∧
      byte ≠ Byte.doubleQuote ∧ byte ≠ Byte.singleQuote ∧ isBare byte = false := by
  revert byte
  apply Byte.of_codes
  decide +kernel

theorem bracePart_extends
    (reader : Reader)
    (more text : Text)
    (offset : Nat)
    (machine : Machine σ) :
    Extends more text offset (Source.closedTail (Source.bracesEnd? text))
      (bracePart reader ⟨text, offset⟩)
      (bracePart reader ⟨text ++ Byte.newline :: more, offset⟩) machine := by
  cases found : Source.bracesEnd? text with
  | none =>
      exact .of_malformed (by simp only [bracePart, found]; rfl)
  | some ends =>
      obtain ⟨inside, behind⟩ := ends
      intro value after final ran
      simp only [bracePart, found] at ran
      cases ran
      refine ⟨rfl, fun _ => ⟨_, ?_, .behind found more offset⟩⟩
      rw [bracePart]
      simp only [Source.bracesEnd?, Source.balanced?_append found]
      rfl

theorem bracketPart_extends
    (reader : Reader)
    {run : Run σ}
    (nestable : Nestable run)
    (more text : Text)
    (offset : Nat)
    (machine : Machine σ) :
    Extends more text offset (Source.closedTail (Source.bracketsEnd? text))
      (bracketPart reader run ⟨text, offset⟩)
      (bracketPart reader run ⟨text ++ Byte.newline :: more, offset⟩) machine := by
  cases found : Source.bracketsEnd? text with
  | none =>
      exact .of_malformed (by simp only [bracketPart, found]; rfl)
  | some ends =>
      obtain ⟨inside, behind⟩ := ends
      intro value after final ran
      simp only [bracketPart, found] at ran
      obtain ⟨result, between, nested, returned⟩ := bind_eq_ok ran
      cases returned
      refine ⟨nestable.active nested, fun _ => ⟨_, ?_, .behind found more offset⟩⟩
      rw [bracketPart]
      simp only [Source.bracketsEnd?, Source.balanced?_append found]
      rw [bind_of_ok nested]
      rfl

theorem dollarPart_extends
    {run : Run σ}
    (nestable : Nestable run)
    {more text tail : Text}
    {offset : Nat}
    {short long : Eval σ (Text × Cursor)}
    {machine : Machine σ}
    (busy : machine.interpreter.active ≠ [])
    (name : Extends more text offset tail short long machine) :
    Extends more text offset tail (dollarPart run short) (dollarPart run long) machine := by
  intro value after final ran
  obtain ⟨word, between, readName, rest⟩ := bind_eq_ok ran
  obtain ⟨active, same⟩ := name word.1 word.2 between readName
  obtain ⟨expansion, _, inspected, goesOn⟩ := bind_eq_ok rest
  cases inspected
  obtain ⟨result, _, nested, returned⟩ := bind_eq_ok goesOn
  cases returned
  refine ⟨(nestable.active nested).trans active, fun noError => ?_⟩
  have noErrorBefore : between.interpreter.error = none := by
    refine Classical.byContradiction fun pending => ?_
    exact nestable.error (by rwa [active]) pending nested noError
  obtain ⟨longer, readLonger, reads⟩ := same noErrorBefore
  refine ⟨longer, ?_, reads⟩
  rw [dollarPart, bind_of_ok readLonger]
  exact bind_of_ok nested

/-- An action and, unless it fails, what follows it; a failure ends it with what has been read. -/
def unlessFailed (first : Eval σ (Text × Cursor)) (ended : Text → Text)
    (next : Text → Cursor → Eval σ (Text × Cursor)) : Eval σ (Text × Cursor) := do
  let (value, after) ← first
  if ← hasError then return (ended value, after) else next value after

theorem unlessFailed_extends
    {more text tail nextTail : Text}
    {offset : Nat}
    {short long : Eval σ (Text × Cursor)}
    {ended : Text → Text}
    {next longNext : Text → Cursor → Eval σ (Text × Cursor)}
    {machine : Machine σ}
    (first : Extends more text offset tail short long machine)
    (goesOn : ∀ (value : Text) (stop : Nat) (between : Machine σ),
      between.interpreter.active = machine.interpreter.active →
      stop + tail.length = offset + text.length →
      tail <:+ text →
      Extends more tail stop nextTail (next value ⟨tail, stop⟩)
        (longNext value ⟨tail ++ Byte.newline :: more, stop⟩) between)
    (fails : ∀ (value : Text) (stop : Nat) (between final : Machine σ) (result : Text × Cursor),
      next value ⟨[], stop⟩ between = .ok result final →
      final.interpreter.active = between.interpreter.active ∧ final.interpreter.error ≠ none) :
    Extends more text offset nextTail (unlessFailed short ended next)
      (unlessFailed long ended longNext) machine := by
  intro value after final ran
  obtain ⟨found, between, ranFirst, ranNext⟩ := bind_eq_ok ran
  obtain ⟨active, same⟩ := first found.1 found.2 between ranFirst
  simp only [hasError_bind_apply] at ranNext
  cases pending : between.interpreter.error with
  | some error =>
      rw [pending] at ranNext
      cases ranNext
      exact ⟨active, fun noError => by simp [pending] at noError⟩
  | none =>
      simp only [pending, Option.isSome_none, Bool.false_eq_true, if_false] at ranNext
      obtain ⟨longer, ranLong, reads⟩ := same pending
      rcases reads.cases with ⟨stop, atTail, longAtTail⟩ | ⟨stop, atEnd, _⟩
      · rw [atTail] at reads ranNext
        obtain ⟨activeNext, sameNext⟩ :=
          goesOn found.1 stop between active reads.sized reads.suffix value after final ranNext
        refine ⟨activeNext.trans active, fun noError => ?_⟩
        obtain ⟨longest, ranLongest, readsNext⟩ := sameNext noError
        refine ⟨longest, ?_, readsNext.later reads.suffix reads.sized⟩
        rw [unlessFailed, bind_of_ok ranLong]
        simp only [hasError_bind_apply, pending, Option.isSome_none, Bool.false_eq_true, if_false,
          longAtTail]
        exact ranLongest
      · rw [atEnd] at ranNext
        obtain ⟨activeNext, failed⟩ := fails found.1 stop between final _ ranNext
        exact ⟨activeNext.trans active, fun noError => absurd noError failed⟩

/-- A quoted part that starts where the text ends is never closed. -/
theorem quotedPart_nil
    (reader : Reader)
    (run : Run σ)
    (name : Cursor → Eval σ (Text × Cursor))
    (quote : UInt8)
    (start bound offset : Nat)
    (done : Text)
    {machine final : Machine σ}
    {result : Text × Cursor}
    (ran : quotedPart reader run name quote start (bound + 1) ⟨[], offset⟩ done machine =
      .ok result final) :
    final.interpreter.active = machine.interpreter.active ∧ final.interpreter.error ≠ none := by
  obtain ⟨after, failed, pending, active⟩ := malformed_pending reader start .openQuote machine
  have nothing : quotedRun quote [] offset done = (done, ⟨[], offset⟩) := rfl
  rw [quotedPart] at ran
  simp only [nothing] at ran
  rw [bind_of_ok failed] at ran
  cases ran
  exact ⟨active, pending⟩

/-- Behind a quoted run a dollar or a bracket goes on with the quoted part, and a quote ends it. -/
theorem quotedPart_of_run
    (reader : Reader)
    (run : Run σ)
    (name : Cursor → Eval σ (Text × Cursor))
    (quote : UInt8)
    (start bound : Nat)
    {text done literal rest : Text}
    {offset stop : Nat}
    {byte : UInt8}
    (ran : quotedRun quote text offset done = (literal, ⟨byte :: rest, stop⟩)) :
    quotedPart reader run name quote start (bound + 1) ⟨text, offset⟩ done =
      if byte == Byte.dollar then
        unlessFailed (dollarPart run (name ⟨rest, stop + 1⟩))
          (fun value => (value.reverse ++ literal).reverse)
          fun value cursor =>
            quotedPart reader run name quote start bound cursor (value.reverse ++ literal)
      else if byte == Byte.openBracket then
        unlessFailed (bracketPart reader run ⟨rest, stop + 1⟩)
          (fun value => (value.reverse ++ literal).reverse)
          fun value cursor =>
            quotedPart reader run name quote start bound cursor (value.reverse ++ literal)
      else pure (literal.reverse, ⟨rest, stop + 1⟩) := by
  rw [quotedPart]
  simp only [ran]
  cases isDollar : byte == Byte.dollar with
  | true =>
      simp only [Bool.true_or, if_true]
      rfl
  | false =>
      cases isBracket : byte == Byte.openBracket with
      | true =>
          simp only [Bool.or_true, if_true, Bool.false_eq_true, if_false]
          rfl
      | false =>
          simp only [Bool.or_self, Bool.false_eq_true, if_false]

theorem quotedPart_extends
    (reader : Reader)
    {run : Run σ}
    (nestable : Nestable run)
    (more : Text)
    {name longName : Cursor → Eval σ (Text × Cursor)}
    {nameTail : Text → Text}
    {size : Nat}
    (names : ∀ (text : Text) (offset : Nat) (machine : Machine σ),
      text.length < size →
      text.getLast? ≠ some Byte.backslash →
      machine.interpreter.active ≠ [] →
      Extends more text offset (nameTail text) (name ⟨text, offset⟩)
        (longName ⟨text ++ Byte.newline :: more, offset⟩) machine)
    (quote : UInt8)
    (start bound : Nat) :
    ∀ (longBound : Nat) (text : Text) (offset : Nat) (done : Text) (machine : Machine σ),
      Fits more text bound longBound →
      text.length ≤ size →
      text.getLast? ≠ some Byte.backslash →
      machine.interpreter.active ≠ [] →
      Extends more text offset (Source.quotedTail nameTail quote bound text)
        (quotedPart reader run name quote start bound ⟨text, offset⟩ done)
        (quotedPart reader run longName quote start longBound
          ⟨text ++ Byte.newline :: more, offset⟩ done) machine := by
  induction bound with
  | zero =>
      intro longBound text offset done machine fits
      exact absurd fits.enough (Nat.not_lt_zero _)
  | succ bound inductionHypothesis =>
      intro longBound text offset done machine fits small noBackslash busy
      obtain ⟨longBound, rfl⟩ := fits.long_succ
      have enough := fits.enough
      cases ranQuoted : quotedRun quote text offset done with
      | mk literal stop =>
          obtain ⟨place, stop⟩ := stop
          cases place with
          | nil =>
              exact .of_malformed (by rw [quotedPart]; simp only [ranQuoted]; rfl)
          | cons byte rest =>
              obtain ⟨suffix, sized, appended, others⟩ :=
                Source.quotedRun_inside quote _ _ _ _ _ _ (Nat.lt_succ_self _) ranQuoted
                  (by simp)
              have shorter := suffix.length_le
              simp only [List.length_cons] at sized shorter
              have restSuffix : rest <:+ text := (List.suffix_cons _ _).trans suffix
              have noBackslashRest := Source.getLast?_ne_of_suffix restSuffix noBackslash
              have goesOn : ∀ (tail : Text) (short long : Eval σ (Text × Cursor)),
                  Extends more rest (stop + 1) tail short long machine →
                  Extends more text offset (Source.quotedTail nameTail quote bound tail)
                    (unlessFailed short (fun value => (value.reverse ++ literal).reverse)
                      fun value cursor =>
                        quotedPart reader run name quote start bound cursor
                          (value.reverse ++ literal))
                    (unlessFailed long (fun value => (value.reverse ++ literal).reverse)
                      fun value cursor =>
                        quotedPart reader run longName quote start longBound cursor
                          (value.reverse ++ literal)) machine := by
                intro tail short long inner
                refine (unlessFailed_extends inner ?_ ?_).later restSuffix (by omega)
                · intro value stop between active sizedTail suffixTail
                  have shorterTail := suffixTail.length_le
                  exact inductionHypothesis longBound tail stop _ between
                    (fits.later (by omega)) (by omega)
                    (Source.getLast?_ne_of_suffix suffixTail noBackslashRest) (by rwa [active])
                · intro value stop between final result ranEnd
                  obtain ⟨bound, rfl⟩ : ∃ fewer, bound = fewer + 1 := ⟨bound - 1, by omega⟩
                  exact quotedPart_nil reader run name quote start bound stop _ ranEnd
              rw [quotedPart_of_run reader run name quote start bound ranQuoted,
                quotedPart_of_run reader run longName quote start longBound (appended _),
                Source.quotedTail]
              simp only [others]
              split
              case isTrue isDollar =>
                exact goesOn _ _ _ (dollarPart_extends nestable busy
                  (names rest (stop + 1) machine (by omega) noBackslashRest busy))
              case isFalse notDollar =>
                split
                case isTrue isBracket =>
                  exact goesOn _ _ _ (bracketPart_extends reader nestable more rest _ machine)
                case isFalse notBracket =>
                  intro value after final ran
                  cases ran
                  exact ⟨rfl, fun _ => ⟨_, rfl, .inside restSuffix (by omega)⟩⟩

/-- Read the part that starts with a byte; `rest` is behind it. -/
def partAt (reader : Reader) (run : Run σ) (bound : Nat) (byte : UInt8) (rest : Text)
    (offset : Nat) : Eval σ (Text × Cursor) :=
  if byte == Byte.dollar then dollarPart run (part reader run bound ⟨rest, offset + 1⟩)
  else if byte == Byte.openBrace then bracePart reader ⟨rest, offset + 1⟩
  else if byte == Byte.openBracket then bracketPart reader run ⟨rest, offset + 1⟩
  else if byte == Byte.doubleQuote || byte == Byte.singleQuote then
    quotedPart reader run (part reader run bound) byte offset (bound + 1) ⟨rest, offset + 1⟩ []
  else
    pure ((byte :: rest).takeWhile isBare,
      ⟨(byte :: rest).dropWhile isBare, offset + ((byte :: rest).takeWhile isBare).length⟩)

/-- A part is what stands behind the blanks. -/
theorem part_succ
    (reader : Reader)
    (run : Run σ)
    (bound : Nat)
    (cursor : Cursor) :
    part reader run (bound + 1) cursor =
      skipBlanks reader cursor >>= fun place =>
        match place.rest with
        | [] => pure ([], place)
        | byte :: rest => partAt reader run bound byte rest place.offset := by
  rw [part]
  refine congrArg (skipBlanks reader cursor >>= ·) (funext fun place => ?_)
  obtain ⟨left, offset⟩ := place
  cases left with
  | nil =>
      rfl
  | cons byte rest =>
      rfl

/-- A bare run does not go on behind a line break. -/
theorem takeWhile_isBare_append
    (text more : Text) :
    (text ++ Byte.newline :: more).takeWhile isBare = text.takeWhile isBare := by
  have breaks : isBare Byte.newline = false := by decide
  induction text with
  | nil =>
      simp [breaks]
  | cons byte rest inductionHypothesis =>
      rw [List.cons_append, List.takeWhile_cons, List.takeWhile_cons, inductionHypothesis]

theorem dropWhile_isBare_append
    (text more : Text) :
    (text ++ Byte.newline :: more).dropWhile isBare =
      text.dropWhile isBare ++ Byte.newline :: more := by
  have breaks : isBare Byte.newline = false := by decide
  induction text with
  | nil =>
      simp [breaks]
  | cons byte rest inductionHypothesis =>
      rw [List.cons_append, List.dropWhile_cons, List.dropWhile_cons, inductionHypothesis]
      split <;> rfl

theorem partAt_extends
    (reader : Reader)
    {run : Run σ}
    (nestable : Nestable run)
    (more : Text)
    {bound longBound : Nat}
    (byte : UInt8)
    (rest : Text)
    (offset : Nat)
    (machine : Machine σ)
    (names : ∀ (text : Text) (offset : Nat) (machine : Machine σ),
      text.length ≤ rest.length →
      text.getLast? ≠ some Byte.backslash →
      machine.interpreter.active ≠ [] →
      Extends more text offset (Source.partTail bound text) (part reader run bound ⟨text, offset⟩)
        (part reader run longBound ⟨text ++ Byte.newline :: more, offset⟩) machine)
    (fits : Fits more rest (bound + 1) (longBound + 1))
    (noBackslash : (byte :: rest).getLast? ≠ some Byte.backslash)
    (busy : machine.interpreter.active ≠ []) :
    Extends more (byte :: rest) offset
      (if byte == Byte.dollar then Source.partTail bound rest
        else if byte == Byte.openBrace then Source.closedTail (Source.bracesEnd? rest)
        else if byte == Byte.openBracket then Source.closedTail (Source.bracketsEnd? rest)
        else if byte == Byte.doubleQuote || byte == Byte.singleQuote then
          Source.quotedTail (Source.partTail bound) byte (bound + 1) rest
        else (byte :: rest).dropWhile isBare)
      (partAt reader run bound byte rest offset)
      (partAt reader run longBound byte (rest ++ Byte.newline :: more) offset) machine := by
  have noBackslashRest := Source.getLast?_ne_of_cons noBackslash
  have suffix : rest <:+ byte :: rest := List.suffix_cons byte rest
  have sized : offset + 1 + rest.length = offset + (byte :: rest).length := by
    simp only [List.length_cons]
    omega
  rw [partAt, partAt]
  split
  case isTrue isDollar =>
    have name := names rest (offset + 1) machine (Nat.le_refl _) noBackslashRest busy
    exact (dollarPart_extends nestable busy name).later suffix sized
  case isFalse notDollar =>
    split
    case isTrue isBrace =>
      exact (bracePart_extends reader more rest (offset + 1) machine).later suffix sized
    case isFalse notBrace =>
      split
      case isTrue isBracket =>
        exact (bracketPart_extends reader nestable more rest (offset + 1) machine).later suffix
          sized
      case isFalse notBracket =>
        split
        case isTrue isQuote =>
          refine Extends.later ?_ suffix sized
          exact quotedPart_extends reader nestable more
            (fun text stop between small => names text stop between (Nat.le_of_lt small)) byte
            offset (bound + 1) (longBound + 1) rest (offset + 1) [] machine fits (Nat.le_refl _)
            noBackslashRest busy
        case isFalse notQuote =>
          intro value after final ran
          cases ran
          rw [← List.cons_append, takeWhile_isBare_append, dropWhile_isBare_append]
          refine ⟨rfl, fun _ => ⟨_, rfl, .inside (List.dropWhile_suffix _) ?_⟩⟩
          have split := congrArg List.length
            (List.takeWhile_append_dropWhile (p := isBare) (l := byte :: rest))
          rw [List.length_append] at split
          omega

section Lines

variable {reader : Reader} (lines : reader.acrossLines = false)

include lines

theorem skipBlanks_of_skips
    {text rest : Text}
    (skips : Skips .plain text rest)
    (offset : Nat)
    (machine : Machine σ) :
    skipBlanks reader ⟨text, offset⟩ machine =
      .ok ⟨rest, offset + (text.length - rest.length)⟩ machine := by
  apply skipBlanks_apply
  rw [Source.skipBlanks, lines]
  exact Source.skipFrom_of_skips skips .plain offset rfl

theorem part_of_skips
    (run : Run σ)
    (bound : Nat)
    {text rest : Text}
    {byte : UInt8}
    (skips : Skips .plain text (byte :: rest))
    (offset : Nat)
    (machine : Machine σ) :
    part reader run (bound + 1) ⟨text, offset⟩ machine =
      partAt reader run bound byte rest (offset + (text.length - (rest.length + 1))) machine := by
  rw [part, bind_of_ok (skipBlanks_of_skips lines skips offset machine)]
  rfl

/-- There is no part before a separator or the end. -/
theorem part_of_atBreak
    (run : Run σ)
    (bound : Nat)
    {text rest : Text}
    (skips : Skips .plain text rest)
    (atBreak : Source.atBreak rest = true)
    (offset : Nat)
    (machine : Machine σ) :
    part reader run (bound + 1) ⟨text, offset⟩ machine =
      .ok ([], ⟨rest, offset + (text.length - rest.length)⟩) machine := by
  cases rest with
  | nil =>
      rw [part, bind_of_ok (skipBlanks_of_skips lines skips offset machine)]
      rfl
  | cons byte rest =>
      obtain ⟨notDollar, notBrace, notBracket, notDouble, notSingle, notBare⟩ :=
        isSeparator_opens atBreak
      rw [part_of_skips lines run bound skips, partAt]
      simp [notDollar, notBrace, notBracket, notDouble, notSingle, notBare]

theorem part_extends
    {run : Run σ}
    (nestable : Nestable run)
    {more : Text}
    (trivia : Source.isTrivia more = true)
    (bound : Nat) :
    ∀ (longBound : Nat) (text : Text) (offset : Nat) (machine : Machine σ),
      Fits more text bound longBound →
      text.getLast? ≠ some Byte.backslash →
      machine.interpreter.active ≠ [] →
      Extends more text offset (Source.partTail bound text)
        (part reader run bound ⟨text, offset⟩)
        (part reader run longBound ⟨text ++ Byte.newline :: more, offset⟩) machine := by
  induction bound with
  | zero =>
      intro longBound text offset machine fits
      exact absurd fits.enough (Nat.not_lt_zero _)
  | succ bound inductionHypothesis =>
      intro longBound text offset machine fits noBackslash busy
      obtain ⟨longBound, rfl⟩ := fits.long_succ
      rcases skipBlanks_cases lines ⟨text, offset⟩ machine with
        ⟨rest, skips, skipped⟩ | ⟨stop, failed, skipped, pending, active⟩
      · cases rest with
        | nil =>
            intro value after final ran
            obtain ⟨place, skipsMore, suffix, _, atBreak⟩ := skips.append_trivia trivia
            have shorter := suffix.length_le
            rw [part_of_atBreak lines run bound skips rfl] at ran
            cases ran
            have ranLonger :=
              part_of_atBreak lines run longBound skipsMore atBreak offset machine
            refine ⟨rfl, fun _ => ⟨_, ranLonger, ?_⟩⟩
            have whole : Source.partTail (bound + 1) text = text := by
              rw [Source.partTail, skips.pastBlanks_eq]
            rw [whole]
            simp only [List.length_cons] at shorter
            refine ⟨List.nil_suffix, ?_, ?_, .inr ⟨rfl, skips, skipsMore⟩⟩
            · simp
            · simp only [List.length_append, List.length_cons]
              omega
        | cons byte rest =>
            have suffix := skips.suffix
            have shorter := suffix.length_le
            simp only [List.length_cons] at shorter
            have skipsMore : Skips .plain (text ++ Byte.newline :: more)
                (byte :: (rest ++ Byte.newline :: more)) :=
              skips.append_inside (by simp) noBackslash more
            have sameOffset :
                (text ++ Byte.newline :: more).length -
                    ((rest ++ Byte.newline :: more).length + 1) =
                  text.length - (rest.length + 1) := by
              simp only [List.length_append]
              omega
            have names : ∀ (name : Text) (stop : Nat) (between : Machine σ),
                name.length ≤ rest.length →
                name.getLast? ≠ some Byte.backslash →
                between.interpreter.active ≠ [] →
                Extends more name stop (Source.partTail bound name)
                  (part reader run bound ⟨name, stop⟩)
                  (part reader run longBound ⟨name ++ Byte.newline :: more, stop⟩) between :=
              fun name stop between small => inductionHypothesis longBound name stop between
                (fits.later (Nat.lt_of_le_of_lt small shorter))
            have reading := partAt_extends reader nestable more byte rest
              (offset + (text.length - (rest.length + 1))) machine names
              (fits.of_le (Nat.le_of_lt shorter))
              (Source.getLast?_ne_of_suffix suffix noBackslash) busy
            rw [Source.partTail, skips.pastBlanks_eq]
            refine (reading.of_eq ?_ ?_).later suffix (by simp only [List.length_cons]; omega)
            · rw [part_of_skips lines run bound skips]
            · rw [part_of_skips lines run longBound skipsMore, sameOffset]
      · intro value after final ran
        rw [part, bind_of_ok skipped] at ran
        cases ran
        exact ⟨active, fun noError => absurd noError pending⟩

end Lines

end LittleScript.Eval
