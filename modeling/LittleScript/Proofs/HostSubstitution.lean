import LittleScript.Proofs.FirstError
import LittleScript.Proofs.LongerText

namespace LittleScript

/-!
# Substitution for a host

A host reads texts as lists and as expressions while no evaluation is active.  Code nested in such
a text is then an evaluation of its own, which drops the error that is pending when it starts.  So
the first error survives the reading as long as nested code starts only where none is pending.  A
dollar whose name cannot be read breaks that rule: its expansion is run nevertheless, and the error
about the name is lost.
-/

open Source (Cursor)

variable {σ α β : Type}

/-! ## Dollars that name a variable -/

/-- Whether a text that follows a dollar starts with a name that can be read: bare or in braces. -/
def namesVariable : Text → Bool
  | [] => true
  | byte :: rest =>
      if byte == Byte.openBrace then (Source.bracesEnd? rest).isSome
      else Source.startsWord byte && isBare byte

/-- Whether every dollar of a text stands directly before such a name. -/
def dollarsNamed : Text → Bool
  | [] => true
  | byte :: rest => (byte != Byte.dollar || namesVariable rest) && dollarsNamed rest

/-- What holds of all dollars of a text holds of those of its end. -/
theorem dollarsNamed_of_suffix
    {text rest : Text}
    (suffix : rest <:+ text)
    (named : dollarsNamed text = true) :
    dollarsNamed rest = true := by
  obtain ⟨before, rfl⟩ := suffix
  induction before with
  | nil =>
      exact named
  | cons byte before inductionHypothesis =>
      rw [List.cons_append, dollarsNamed, Bool.and_eq_true] at named
      exact inductionHypothesis named.2

/-! ## Readers keep to their text -/

namespace Eval

/-- Skipping blanks goes on where they end, and changes nothing unless nothing is left there. -/
theorem skipBlanks_ran
    {reader : Reader}
    {cursor place : Cursor}
    {machine ended : Machine σ}
    (ran : skipBlanks reader cursor machine = .ok place ended) :
    place = (Source.skipBlanks reader.acrossLines cursor).cursor ∧
      (place.rest ≠ [] → ended = machine) := by
  cases opened : (Source.skipBlanks reader.acrossLines cursor).openComment with
  | none =>
      simp only [skipBlanks, opened] at ran
      cases ran
      exact ⟨rfl, fun _ => rfl⟩
  | some start =>
      simp only [skipBlanks, opened] at ran
      obtain ⟨_, _, _, yields⟩ := bind_eq_ok ran
      cases yields
      exact ⟨rfl, absurd (Source.rest_of_openComment _ _ _ _ opened)⟩

/-- Skipping blanks stays in the text. -/
theorem skipBlanks_leaves
    {reader : Reader}
    {cursor place : Cursor}
    {machine ended : Machine σ}
    (ran : skipBlanks reader cursor machine = .ok place ended) :
    place.rest <:+ cursor.rest := by
  rw [(skipBlanks_ran ran).1]
  exact Source.skipFrom_suffix reader.acrossLines .plain cursor.rest cursor.offset

/-- Skipping blanks reports an error only where nothing is left. -/
theorem skipBlanks_unchanged
    {reader : Reader}
    {cursor place : Cursor}
    {machine ended : Machine σ}
    (ran : skipBlanks reader cursor machine = .ok place ended)
    (goesOn : place.rest ≠ []) :
    ended = machine :=
  (skipBlanks_ran ran).2 goesOn

/-- Whatever a reader yields, what it leaves is a suffix of a text. -/
def Leaves (text : Text) (reading : Eval σ (Text × Cursor)) : Prop :=
  ∀ machine read ended, reading machine = .ok read ended → read.2.rest <:+ text

namespace Leaves

variable {text : Text}

/-- A reader that only moves on leaves where it has moved to. -/
theorem pure
    {value : Text}
    {after : Cursor}
    (suffix : after.rest <:+ text) :
    Leaves text (Pure.pure (value, after) : Eval σ (Text × Cursor)) := by
  intro machine read ended ran
  cases ran
  exact suffix

/-- What stands before the last step of a reader does not matter. -/
theorem bind
    {first : Eval σ α}
    {next : α → Eval σ (Text × Cursor)}
    (leaves : ∀ value, Leaves text (next value)) :
    Leaves text (first >>= next) := by
  intro machine read ended ran
  obtain ⟨value, between, -, ranNext⟩ := bind_eq_ok ran
  exact leaves value between read ended ranNext

/-- A step that reads on where another reader stopped. -/
theorem andThen
    {first : Eval σ (Text × Cursor)}
    {next : Text × Cursor → Eval σ (Text × Cursor)}
    (leavesFirst : Leaves text first)
    (leaves : ∀ read, read.2.rest <:+ text → Leaves text (next read)) :
    Leaves text (first >>= next) := by
  intro machine read ended ran
  obtain ⟨value, between, ranFirst, ranNext⟩ := bind_eq_ok ran
  exact leaves value (leavesFirst _ _ _ ranFirst) between read ended ranNext

/-- A suffix of a suffix is a suffix. -/
theorem mono
    {longer : Text}
    {reading : Eval σ (Text × Cursor)}
    (leaves : Leaves text reading)
    (suffix : text <:+ longer) :
    Leaves longer reading :=
  fun _ _ _ ran => (leaves _ _ _ ran).trans suffix

/-- Whether reading fails or goes on, it leaves a suffix. -/
theorem unlessFailed
    {first : Eval σ (Text × Cursor)}
    {ended : Text → Text}
    {goOn : Text → Cursor → Eval σ (Text × Cursor)}
    (leavesFirst : Leaves text first)
    (leaves : ∀ value after, Leaves after.rest (goOn value after)) :
    Leaves text (Eval.unlessFailed first ended goOn) := by
  refine leavesFirst.andThen fun read suffix => .bind fun failed => ?_
  split
  · exact .pure suffix
  · exact (leaves read.1 read.2).mono suffix

/-- Behind a dollar the name is left behind. -/
theorem dollarPart
    {run : Run σ}
    {name : Eval σ (Text × Cursor)}
    (leaves : Leaves text name) :
    Leaves text (Eval.dollarPart run name) :=
  leaves.andThen fun _ suffix => .bind fun _ => .bind fun _ => .pure suffix

/-- Behind a part in braces what follows them is left. -/
theorem bracePart
    (reader : Reader)
    (cursor : Cursor) :
    Leaves (σ := σ) cursor.rest (Eval.bracePart reader cursor) := by
  rw [Eval.bracePart]
  split
  case h_1 inside after found =>
    exact .pure (Source.balanced?_sized found).1
  case h_2 =>
    exact .bind fun _ => .pure List.nil_suffix

/-- Behind a part in brackets what follows them is left, whatever has run. -/
theorem bracketPart
    (reader : Reader)
    (run : Run σ)
    (cursor : Cursor) :
    Leaves cursor.rest (Eval.bracketPart reader run cursor) := by
  rw [Eval.bracketPart]
  split
  case h_1 inside after found =>
    exact .bind fun _ => .pure (Source.balanced?_sized found).1
  case h_2 =>
    exact .bind fun _ => .pure List.nil_suffix

/-- Behind a quoted part what follows the quote is left, if the names in it leave a suffix. -/
theorem quotedPart
    (reader : Reader)
    (run : Run σ)
    {name : Cursor → Eval σ (Text × Cursor)}
    (leaves : ∀ cursor, Leaves cursor.rest (name cursor))
    (quote : UInt8)
    (start bound : Nat) :
    ∀ (cursor : Cursor) (done : Text),
      Leaves cursor.rest (Eval.quotedPart reader run name quote start bound cursor done) := by
  induction bound with
  | zero =>
      exact fun _ _ => .pure List.suffix_rfl
  | succ bound inductionHypothesis =>
      intro cursor done
      have stops := Source.quotedRun_suffix quote cursor.rest cursor.offset done
      cases stopped : quotedRun quote cursor.rest cursor.offset done with
      | mk literal stop =>
          rw [stopped] at stops
          obtain ⟨left, offset⟩ := stop
          cases left with
          | nil =>
              rw [Eval.quotedPart]
              simp only [stopped]
              exact .bind fun _ => .pure List.nil_suffix
          | cons byte rest =>
              have inside : rest <:+ cursor.rest := (List.suffix_cons byte rest).trans stops
              rw [quotedPart_of_run reader run name quote start bound stopped]
              split
              · refine .unlessFailed (.dollarPart ?_) fun value after => inductionHypothesis after _
                exact (leaves ⟨rest, offset + 1⟩).mono inside
              · split
                · refine .unlessFailed ?_ fun value after => inductionHypothesis after _
                  exact (bracketPart reader run ⟨rest, offset + 1⟩).mono inside
                · exact .pure inside

/-- Every part that is not blank leaves a suffix of what starts with it. -/
theorem partAt
    (reader : Reader)
    (run : Run σ)
    {bound : Nat}
    (leaves : ∀ cursor : Cursor, Leaves cursor.rest (Eval.part reader run bound cursor))
    (byte : UInt8)
    (rest : Text)
    (offset : Nat) :
    Leaves (byte :: rest) (Eval.partAt reader run bound byte rest offset) := by
  have inside : rest <:+ byte :: rest := List.suffix_cons byte rest
  rw [Eval.partAt]
  split
  · exact (dollarPart (leaves ⟨rest, offset + 1⟩)).mono inside
  · split
    · exact (bracePart reader ⟨rest, offset + 1⟩).mono inside
    · split
      · exact (bracketPart reader run ⟨rest, offset + 1⟩).mono inside
      · split
        · exact (quotedPart reader run leaves byte offset _ ⟨rest, offset + 1⟩ []).mono inside
        · exact .pure (List.dropWhile_suffix isBare)

/-- So does a part behind blanks. -/
theorem part
    (reader : Reader)
    (run : Run σ)
    (bound : Nat) :
    ∀ cursor : Cursor, Leaves cursor.rest (Eval.part reader run bound cursor) := by
  induction bound with
  | zero =>
      exact fun _ => .pure List.suffix_rfl
  | succ bound inductionHypothesis =>
      intro cursor machine read ended ran
      rw [part_succ] at ran
      obtain ⟨place, between, skipped, ranPart⟩ := bind_eq_ok ran
      have suffix := skipBlanks_leaves skipped
      obtain ⟨left, offset⟩ := place
      cases left with
      | nil =>
          cases ranPart
          exact List.nil_suffix
      | cons byte rest =>
          have leaves := partAt reader run inductionHypothesis byte rest offset
          exact (leaves.mono suffix) between read ended ranPart

end Leaves

/-- A word ends at a suffix of the text at its cursor. -/
theorem word_leaves
    (reader : Reader)
    (run : Run σ)
    (depth bound : Nat) :
    ∀ (cursor : Cursor) (done : Text) {machine ended : Machine σ} {read : Text × Cursor},
      word reader run depth bound cursor done machine = .ok (some read) ended →
      read.2.rest <:+ cursor.rest := by
  induction bound with
  | zero =>
      intro cursor done machine ended read ran
      cases ran
  | succ bound inductionHypothesis =>
      intro cursor done machine ended read ran
      rw [word] at ran
      obtain ⟨⟨value, after⟩, between, ranPart, ranRest⟩ := bind_eq_ok ran
      have suffix := Leaves.part reader run depth cursor _ _ _ ranPart
      simp only at ranRest
      split at ranRest
      · obtain ⟨_, _, _, yields⟩ := bind_eq_ok ranRest
        cases yields
      · rw [hasError_bind_apply] at ranRest
        split at ranRest
        · cases ranRest
          exact suffix
        · exact (inductionHypothesis after _ ranRest).trans suffix

/-! ## Readers that heed errors -/

/-- The trails of running code where no error is pending. -/
def Heedful (fuel : Nat) : CallTrails σ :=
  fun code ownResult machine trail =>
    machine.interpreter.error = none ∧ Course fuel code ownResult machine trail

/-- Code that starts where no error is pending keeps its first error. -/
theorem Heedful.steady
    {fuel : Nat}
    {code : Text}
    {ownResult : Bool}
    {machine : Machine σ}
    {trail : Trail}
    (heedful : Heedful fuel code ownResult machine trail) :
    Steady machine.interpreter.error trail (evaluate fuel code ownResult) machine := by
  obtain ⟨noError, course⟩ := heedful
  have starts : opening machine = machine.interpreter.error := by
    rw [opening, noError, ite_self]
  exact starts ▸ course.steady

/-- An action has a trail on which code nested in it starts only where no error is pending. -/
def Heeds (fuel : Nat) (action : Run σ → Eval σ α) (machine : Machine σ) : Prop :=
  ∃ trail, Trails (evaluate fuel) (Heedful fuel) action machine trail

namespace Heeds

variable {fuel : Nat} {machine : Machine σ}

theorem pure
    (value : α)
    (machine : Machine σ) :
    Heeds fuel (fun _ => Pure.pure value) machine :=
  ⟨[], .pure value machine⟩

/-- What is done first heeds errors, and so does what follows. -/
theorem bind
    {first : Run σ → Eval σ α}
    {next : Run σ → α → Eval σ β}
    (heedsFirst : Heeds fuel first machine)
    (heeds : ∀ value between, first (evaluate fuel) machine = .ok value between →
      Heeds fuel (fun run => next run value) between) :
    Heeds fuel (fun run => first run >>= next run) machine := by
  obtain ⟨early, firstTrails⟩ := heedsFirst
  cases ran : first (evaluate fuel) machine with
  | error stop after =>
      exact ⟨early, .stopped firstTrails ran⟩
  | ok value between =>
      obtain ⟨late, nextTrails⟩ := heeds value between ran
      exact ⟨early ++ late, .bind firstTrails ran nextTrails⟩

/-- A look at the interpreter starts no code. -/
theorem consult
    (view : Interpreter σ → α)
    {next : Run σ → α → Eval σ β}
    (heeds : Heeds fuel (fun run => next run (view machine.interpreter)) machine) :
    Heeds fuel (fun run => inspect view >>= next run) machine := by
  obtain ⟨trail, trails⟩ := heeds
  exact ⟨trail, .consult view trails⟩

/-- Raising an error starts no code. -/
theorem raise
    (reason : Reason)
    (machine : Machine σ) :
    Heeds fuel (fun _ => Eval.raise reason) machine :=
  consult _ ⟨_, .record _ reason machine⟩

/-- Nor does reporting a flaw. -/
theorem malformed
    (reader : Reader)
    (offset : Nat)
    (flaw : Source.Flaw)
    (machine : Machine σ) :
    Heeds fuel (fun _ => Eval.malformed reader offset flaw) machine := by
  simp only [Eval.malformed]
  split
  · exact ⟨_, .record _ _ machine⟩
  · exact raise _ machine

/-- What reports a flaw and then yields what it has read. -/
theorem flawed
    (reader : Reader)
    (offset : Nat)
    (flaw : Source.Flaw)
    (value : α)
    (machine : Machine σ) :
    Heeds fuel (fun _ => Eval.malformed reader offset flaw >>= fun _ => Pure.pure value)
      machine :=
  (malformed reader offset flaw machine).bind fun _ between _ => pure value between

/-- Nor does skipping blanks. -/
theorem skipBlanks
    (reader : Reader)
    (cursor : Cursor)
    (machine : Machine σ) :
    Heeds fuel (fun _ => Eval.skipBlanks reader cursor) machine := by
  simp only [Eval.skipBlanks]
  split
  · exact flawed ..
  · exact pure _ machine

/-- Where no error is pending nested code may start. -/
theorem nested
    (code : Text)
    (ownResult : Bool)
    (free : machine.interpreter.HostFree)
    (noError : machine.interpreter.error = none) :
    Heeds fuel (fun run => run code ownResult) machine := by
  obtain ⟨trail, course⟩ := exists_course fuel code ownResult machine free
  exact ⟨trail, .nested ⟨noError, course⟩⟩

/-- A dollar part heeds errors when reading its name does and leaves none. -/
theorem dollarPart
    {name : Run σ → Eval σ (Text × Cursor)}
    (heeds : Heeds fuel name machine)
    (named : ∀ read between, name (evaluate fuel) machine = .ok read between →
      between.interpreter.HostFree ∧ between.interpreter.error = none) :
    Heeds fuel (fun run => Eval.dollarPart run (name run)) machine := by
  refine heeds.bind fun read between ran => consult _ ?_
  obtain ⟨free, noError⟩ := named read between ran
  exact (nested _ _ free noError).bind fun _ after _ => pure _ after

/-- The code in brackets starts where no error is pending. -/
theorem bracketPart
    (reader : Reader)
    (cursor : Cursor)
    (free : machine.interpreter.HostFree)
    (noError : machine.interpreter.error = none) :
    Heeds fuel (fun run => Eval.bracketPart reader run cursor) machine := by
  simp only [Eval.bracketPart]
  split
  · exact (nested _ _ free noError).bind fun _ after _ => pure _ after
  · exact flawed ..

theorem bracePart
    (reader : Reader)
    (cursor : Cursor)
    (machine : Machine σ) :
    Heeds fuel (fun _ => Eval.bracePart reader cursor) machine := by
  simp only [Eval.bracePart]
  split
  · exact pure _ machine
  · exact flawed ..

end Heeds

/-- What is composed leaves no host commands behind. -/
theorem Composed.hostFree_of_ok
    {action : Run σ → Eval σ α}
    (composed : Composed (Scope.whole False).toRealm action)
    (fuel : Nat)
    {machine after : Machine σ}
    {value : α}
    (free : machine.interpreter.HostFree)
    (ran : action (evaluate fuel) machine = .ok value after) :
    after.interpreter.HostFree := by
  have kept := composed.upholds Lasting.trivial (LastingScript.trivial.evaluate fuel) machine free
  rw [final_of_ok ran] at kept
  exact kept.1

/-- Where a name can be read, reading it leaves the machine as it is. -/
theorem part_of_namesVariable
    (reader : Reader)
    (run : Run σ)
    (bound : Nat)
    {cursor : Cursor}
    (named : namesVariable cursor.rest = true)
    (machine : Machine σ) :
    ∃ read, part reader run bound cursor machine = .ok read machine := by
  obtain ⟨text, offset⟩ := cursor
  cases bound with
  | zero =>
      exact ⟨_, rfl⟩
  | succ bound =>
      rw [part_succ]
      cases text with
      | nil =>
          have skipped : skipBlanks reader ⟨[], offset⟩ machine = .ok ⟨[], offset⟩ machine :=
            skipBlanks_apply (Source.skipFrom_plain_nil _ _)
          exact ⟨_, bind_of_ok skipped⟩
      | cons byte rest =>
          simp only [namesVariable] at named
          split at named
          case isTrue isBrace =>
            obtain rfl := eq_of_beq isBrace
            obtain ⟨found, isFound⟩ := Option.isSome_iff_exists.mp named
            have starts : Source.startsWord Byte.openBrace = true := by decide
            rw [bind_of_ok (skipBlanks_of_startsWord reader rest offset starts machine)]
            simp only [partAt, bracePart, isFound]
            exact ⟨_, rfl⟩
          case isFalse notBrace =>
            rw [Bool.and_eq_true] at named
            obtain ⟨starts, bare⟩ := named
            simp only [isBare, Byte.isSpecial, Bool.and_eq_true, Bool.not_eq_true',
              Bool.or_eq_false_iff] at bare
            rw [bind_of_ok (skipBlanks_of_startsWord reader rest offset starts machine)]
            simp only [partAt, bare, Bool.or_self, Bool.false_eq_true, if_false]
            exact ⟨_, rfl⟩

/-- On a text in which every dollar has a name a reader heeds errors. -/
def HeedsNamed (fuel : Nat) (reading : Cursor → Run σ → Eval σ α) : Prop :=
  ∀ (cursor : Cursor) (machine : Machine σ), dollarsNamed cursor.rest = true →
    machine.interpreter.HostFree → machine.interpreter.error = none →
    Heeds fuel (reading cursor) machine

namespace Heeds

variable {fuel : Nat}

/-- A dollar part whose name is there heeds errors. -/
theorem namedPart
    (reader : Reader)
    {bound : Nat}
    {cursor : Cursor}
    {machine : Machine σ}
    (heeds : Heeds fuel (fun run => Eval.part reader run bound cursor) machine)
    (named : namesVariable cursor.rest = true)
    (free : machine.interpreter.HostFree)
    (noError : machine.interpreter.error = none) :
    Heeds fuel (fun run => Eval.dollarPart run (Eval.part reader run bound cursor)) machine := by
  refine heeds.dollarPart fun read between ran => ?_
  obtain ⟨_, unchanged⟩ := part_of_namesVariable reader (evaluate fuel) bound named machine
  rw [unchanged] at ran
  cases ran
  exact ⟨free, noError⟩

theorem unlessFailed
    {first : Run σ → Eval σ (Text × Cursor)}
    {ended : Text → Text}
    {next : Run σ → Text → Cursor → Eval σ (Text × Cursor)}
    {text : Text}
    {machine : Machine σ}
    (heedsFirst : Heeds fuel first machine)
    (leaves : Leaves text (first (evaluate fuel)))
    (composed : Composed (Scope.whole False).toRealm first)
    (free : machine.interpreter.HostFree)
    (named : dollarsNamed text = true)
    (heeds : ∀ value, HeedsNamed fuel fun cursor run => next run value cursor) :
    Heeds fuel (fun run => Eval.unlessFailed (first run) ended (next run)) machine := by
  refine heedsFirst.bind fun read between ran => consult _ ?_
  cases pending : between.interpreter.error with
  | some error =>
      exact pure _ between
  | none =>
      refine heeds read.1 read.2 between ?_ (composed.hostFree_of_ok fuel free ran) pending
      exact dollarsNamed_of_suffix (leaves _ _ _ ran) named

theorem quotedPart
    (reader : Reader)
    {depth : Nat}
    (heeds : HeedsNamed (σ := σ) fuel fun cursor run => Eval.part reader run depth cursor)
    (quote : UInt8)
    (start bound : Nat) :
    ∀ done : Text, HeedsNamed (σ := σ) fuel fun cursor run =>
      Eval.quotedPart reader run (Eval.part reader run depth) quote start bound cursor done := by
  induction bound with
  | zero =>
      exact fun _ _ machine _ _ _ => pure _ machine
  | succ bound inductionHypothesis =>
      intro done cursor machine named free noError
      have stops := Source.quotedRun_suffix quote cursor.rest cursor.offset done
      cases stopped : quotedRun quote cursor.rest cursor.offset done with
      | mk literal stop =>
          rw [stopped] at stops
          obtain ⟨left, offset⟩ := stop
          cases left with
          | nil =>
              simp only [Eval.quotedPart, stopped]
              exact flawed ..
          | cons byte rest =>
              have namedHere := dollarsNamed_of_suffix stops named
              rw [dollarsNamed, Bool.and_eq_true] at namedHere
              simp only [quotedPart_of_run reader _ _ quote start bound stopped]
              split
              case isTrue isDollar =>
                have namesNext : namesVariable rest = true := by
                  simpa [bne, isDollar] using namedHere.1
                refine unlessFailed ?_ (.dollarPart (.part reader _ depth ⟨rest, offset + 1⟩))
                  (.dollarPart (.part ..)) free namedHere.2 fun value => inductionHypothesis _
                exact namedPart reader (heeds _ machine namedHere.2 free noError) namesNext free
                  noError
              case isFalse =>
                split
                · exact unlessFailed (bracketPart reader _ free noError)
                    (.bracketPart reader _ ⟨rest, offset + 1⟩)
                    (.bracketPart ..) free namedHere.2 fun value => inductionHypothesis _
                · exact pure _ machine

theorem part
    (reader : Reader)
    (bound : Nat) :
    HeedsNamed (σ := σ) fuel fun cursor run => Eval.part reader run bound cursor := by
  induction bound with
  | zero =>
      exact fun _ machine _ _ _ => pure _ machine
  | succ bound inductionHypothesis =>
      intro cursor machine named free noError
      simp only [part_succ]
      refine (skipBlanks reader cursor machine).bind fun place between skipped => ?_
      have namedHere := dollarsNamed_of_suffix (skipBlanks_leaves skipped) named
      obtain ⟨left, offset⟩ := place
      cases left with
      | nil =>
          exact pure _ between
      | cons byte rest =>
          obtain rfl := skipBlanks_unchanged skipped (by simp)
          rw [dollarsNamed, Bool.and_eq_true] at namedHere
          simp only [partAt]
          split
          case isTrue isDollar =>
            have namesNext : namesVariable rest = true := by
              simpa [bne, isDollar] using namedHere.1
            exact namedPart reader (inductionHypothesis _ _ namedHere.2 free noError) namesNext
              free noError
          case isFalse =>
            split
            · exact bracePart ..
            · split
              · exact bracketPart reader _ free noError
              · split
                · exact quotedPart reader inductionHypothesis byte offset _ [] _ _ namedHere.2 free
                    noError
                · exact pure _ between

/-- A word heeds errors, by induction on the bound for its parts. -/
theorem word
    (reader : Reader)
    (depth bound : Nat) :
    ∀ done : Text, HeedsNamed (σ := σ) fuel fun cursor run =>
      Eval.word reader run depth bound cursor done := by
  induction bound with
  | zero =>
      exact fun _ _ machine _ _ _ => pure _ machine
  | succ bound inductionHypothesis =>
      intro done cursor machine named free noError
      refine (part reader depth cursor machine named free noError).bind fun read after ran => ?_
      have namedAfter := dollarsNamed_of_suffix (Leaves.part reader _ depth cursor _ _ _ ran) named
      have freeAfter : after.interpreter.HostFree :=
        (Composed.part reader depth cursor).hostFree_of_ok fuel free ran
      obtain ⟨value, stop⟩ := read
      simp only
      split
      · exact flawed ..
      · refine consult _ ?_
        cases pending : after.interpreter.error with
        | some error =>
            simp only [Option.isSome_some, Bool.or_true, if_true]
            exact pure _ after
        | none =>
            split
            · exact pure _ after
            · exact inductionHypothesis _ stop after namedAfter freeAfter pending

/-- Words are read only where no error is pending, wherever the reading starts. -/
theorem wordsFrom
    (reader : Reader)
    (depth bound : Nat) :
    ∀ (cursor : Cursor) (done : List Text) (machine : Machine σ),
      dollarsNamed cursor.rest = true → machine.interpreter.HostFree →
      Heeds fuel (fun run => Eval.wordsFrom reader run depth bound cursor done) machine := by
  induction bound with
  | zero =>
      exact fun _ _ machine _ _ => pure _ machine
  | succ bound inductionHypothesis =>
      intro cursor done machine named free
      refine consult _ ?_
      split
      · exact pure _ machine
      case isFalse going =>
        have noError : machine.interpreter.error = none := by
          rw [Bool.or_eq_true, not_or] at going
          exact Option.not_isSome_iff_eq_none.mp going.2
        refine (word reader depth depth [] cursor machine named free noError).bind ?_
        intro read after ran
        have freeAfter : after.interpreter.HostFree :=
          (Composed.word reader depth depth cursor []).hostFree_of_ok fuel free ran
        cases read with
        | none =>
            exact pure _ after
        | some read =>
            have suffix := word_leaves reader _ depth depth cursor [] ran
            refine (skipBlanks reader read.2 after).bind fun place between skipped => ?_
            have freeBetween : between.interpreter.HostFree :=
              (Composed.skipBlanks reader read.2).hostFree_of_ok fuel freeAfter skipped
            have namedHere :=
              dollarsNamed_of_suffix ((skipBlanks_leaves skipped).trans suffix) named
            exact inductionHypothesis place _ between namedHere freeBetween

/-- A text that is read as a list heeds errors. -/
theorem readList
    {text : Text}
    {machine : Machine σ}
    (named : dollarsNamed text = true)
    (free : machine.interpreter.HostFree) :
    Heeds fuel (fun run => Eval.readList run text) machine := by
  refine bind (bind (skipBlanks _ _ machine) fun place between skipped => ?_) fun read after _ => ?_
  · have namedHere := dollarsNamed_of_suffix (skipBlanks_leaves skipped) named
    have freeBetween : between.interpreter.HostFree :=
      (Composed.skipBlanks _ _).hostFree_of_ok fuel free skipped
    exact wordsFrom _ _ _ place [] between namedHere freeBetween
  · cases read with
    | none =>
        exact pure _ after
    | some read =>
        exact pure _ after

/-- So does one that is joined again. -/
theorem readJoined
    {text : Text}
    {machine : Machine σ}
    (named : dollarsNamed text = true)
    (free : machine.interpreter.HostFree) :
    Heeds fuel (fun run => Eval.readJoined run text) machine :=
  (readList named free).bind fun _ after _ => pure _ after

/-- So does an expression. -/
theorem expression
    {code : Text}
    {machine : Machine σ}
    (named : dollarsNamed code = true)
    (free : machine.interpreter.HostFree) :
    Heeds fuel (fun run => Eval.expression run code) machine := by
  refine (readJoined named free).bind fun text after _ => consult _ ?_
  split
  · exact pure _ after
  · split
    · exact pure _ after
    · exact (raise _ after).bind fun _ between _ => pure _ between

end Heeds

/-! ## What a host asks for -/

/-- The ways in which a host reads a text: as a list, joined again, or as an expression. -/
inductive HostReading (text : Text) : {α : Type} → (Run σ → Eval σ α) → Prop where
  | list : HostReading text fun run => readList run text
  | joined : HostReading text fun run => readJoined run text
  | expression : HostReading text fun run => Eval.expression run text

/--
Where no error is pending at first, a host that reads a text finds the first error of the reading
pending in the end, along every trail on which nested code starts only where none is pending.  The
reading has such a trail if every dollar of the text has its name.
-/
theorem substitution_keeps_first_error
    (fuel : Nat)
    {text : Text}
    {action : Run σ → Eval σ α}
    (reading : HostReading text action)
    (machine : Machine σ)
    (free : machine.interpreter.HostFree)
    (noError : machine.interpreter.error = none) :
    (∀ trail, Trails (evaluate fuel) (Heedful fuel) action machine trail →
        Steady none trail (action (evaluate fuel)) machine) ∧
      (dollarsNamed text = true →
        ∃ trail, Trails (evaluate fuel) (Heedful fuel) action machine trail) := by
  constructor
  · intro trail trails
    have steady := trails.steady fun heedful => heedful.steady
    rwa [noError] at steady
  · intro named
    cases reading with
    | list =>
        exact Heeds.readList named free
    | joined =>
        exact Heeds.readJoined named free
    | expression =>
        exact Heeds.expression named free

/-- The text `$a}`, which has a name and then a closing brace that nothing opened. -/
def strayBehindName : Text :=
  [Byte.dollar, 0x61, Byte.closeBrace]

/-- Of a text with a name and then a stray brace the brace is reported. -/
theorem substitution_keeps_first_error_stray :
    ∃ trail, Trails (evaluate 2) (Heedful 2) (fun run => readList run strayBehindName) shallow
        trail ∧
      Steady none trail (readList (evaluate 2) strayBehindName) shallow ∧
      ((final (readList (evaluate 2) strayBehindName) shallow).interpreter.error.map
        ScriptError.reason) = some (.malformed (.strayCloser Byte.closeBrace)) := by
  obtain ⟨steady, heeds⟩ := substitution_keeps_first_error 2
    (.list : HostReading strayBehindName _) shallow (Interpreter.HostFree.fresh _ _) rfl
  obtain ⟨trail, trails⟩ := heeds (by decide)
  exact ⟨trail, trails, steady trail trails, by decide +kernel⟩

/-- The text `${a`, in which the name behind the dollar never ends. -/
def unclosedName : Text :=
  [Byte.dollar, Byte.openBrace, 0x61]

/-- The error about a name that never ends is recorded, and lost again by the expansion. -/
theorem unclosed_name_loses_error :
    shallow.interpreter.active = [] ∧ shallow.interpreter.error = none ∧
      (final (readList (evaluate 2) unclosedName) shallow).world.log.any
        (·.message == Text.ofString "script error") = true ∧
      (final (readList (evaluate 2) unclosedName) shallow).interpreter.error = none := by
  refine ⟨rfl, rfl, ?_, ?_⟩
  · decide +kernel
  · decide +kernel

end Eval

end LittleScript
