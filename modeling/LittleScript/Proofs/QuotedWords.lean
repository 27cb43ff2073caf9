import LittleScript.Proofs.CheckedScripts
import LittleScript.Proofs.JoinedScripts
import LittleScript.Proofs.LastCommand
import LittleScript.Proofs.ListRoundTrip
import LittleScript.Proofs.QuoteEnds

namespace LittleScript

/-!
# Quoted words, checked and read

With commands that do nothing, the reader of a quoted word meets only flaws of the word.  It closes
the word where the text says, or reports a flaw where the text has no end for it; the variables that
it asks for in between change neither.  So the checker and the reader close a quoted word at the
same quote, or both refuse it, exactly if no name in it hides or splits the closing quote.
-/

open Source (Cursor Flaw IsQuote Tame behindBlanks closing? names partEnd? quotedEnd?)

/-! ## The checker -/

namespace Source

/-- Behind the closing quote the checker goes on between words. -/
def GoesOnBehind (quote : UInt8) (start offset : Nat) (text : Text) : Option Text → Prop
  | some behind =>
      flawFrom (.quoted quote start) offset text =
        flawFrom (.words false) (offset + text.length - behind.length) behind
  | none => flawFrom (.quoted quote start) offset text ≠ none

/-- What comes to the same place goes on as it does. -/
theorem GoesOnBehind.of_eq
    {quote : UInt8}
    {start offset place : Nat}
    {text shorter : Text}
    {closed : Option Text}
    (goesOn : GoesOnBehind quote start place shorter closed)
    (sized : place + shorter.length = offset + text.length)
    (same : flawFrom (.quoted quote start) offset text =
      flawFrom (.quoted quote start) place shorter) :
    GoesOnBehind quote start offset text closed := by
  cases closed with
  | none => exact fun sound => goesOn (same.symm.trans sound)
  | some behind =>
      rw [GoesOnBehind, ← sized, same]
      exact goesOn

/-- What passes to a shorter text goes on as that does. -/
theorem GoesOnBehind.ofPassed
    {quote : UInt8}
    {start : Nat}
    {text shorter : Text}
    {closed : Option Text}
    (passes : front (.quoted quote start) text = .passed (.quoted quote start) shorter)
    (less : shorter.length < text.length)
    (goesOn : ∀ place, GoesOnBehind quote start place shorter closed)
    (offset : Nat) :
    GoesOnBehind quote start offset text closed :=
  (goesOn _).of_eq (by omega) (flawFrom_of_passed passes offset)

/-- At a bracket the checker goes on behind the brackets, unless there is a flaw in them. -/
theorem GoesOnBehind.ofBracket
    {quote : UInt8}
    {start : Nat}
    {byte : UInt8}
    {rest : Text}
    (opens : front (.quoted quote start) (byte :: rest) = .ofBracket (.quoted quote start) rest)
    (goesOn : ∀ (place : Nat) (shorter : Text), shorter.length < (byte :: rest).length →
      GoesOnBehind quote start place shorter (closing? quote shorter))
    (offset : Nat) :
    GoesOnBehind quote start offset (byte :: rest)
      ((bracketsEnd? rest).bind fun parts =>
        if (check parts.1).isNone then closing? quote parts.2 else none) := by
  rw [Front.ofBracket] at opens
  have isFlaw := flawFrom_eq (.quoted quote start) offset (byte :: rest)
  cases closed : bracketsEnd? rest with
  | none =>
      rw [opens, closed] at isFlaw
      simp only [Front.flaw] at isFlaw
      simp [GoesOnBehind, isFlaw]
  | some parts =>
      obtain ⟨inside, behind⟩ := parts
      rw [opens, closed] at isFlaw
      have sized := length_of_bracketsEnd? closed
      have moved := flawFrom_moved (offset + 1) (.words true) 0 inside
      rw [Nat.zero_add] at moved
      simp only [Front.flaw, Option.bind_some] at isFlaw ⊢
      cases isChecked : check inside with
      | none =>
          have sound : flawFrom (.words true) (offset + 1) inside = none :=
            moved.trans (congrArg _ isChecked)
          rw [sound, Option.none_or] at isFlaw
          exact (goesOn _ behind (by rw [List.length_cons]; omega)).of_eq
            (by rw [List.length_cons]; omega) isFlaw
      | some found =>
          have flawed : flawFrom (.words true) (offset + 1) inside =
              some (found.moved (offset + 1)) :=
            moved.trans (congrArg _ isChecked)
          rw [flawed, Option.some_or] at isFlaw
          simp [GoesOnBehind, isFlaw]

/-- At a dollar before a brace the checker goes on behind the braces, if they are closed. -/
theorem GoesOnBehind.ofBrace
    {quote : UInt8}
    {start : Nat}
    {byte : UInt8}
    {rest : Text}
    (opens : front (.quoted quote start) (byte :: rest) = .ofBrace (.quoted quote start) rest.tail)
    (goesOn : ∀ (place : Nat) (shorter : Text), shorter.length < (byte :: rest).length →
      GoesOnBehind quote start place shorter (closing? quote shorter))
    (offset : Nat) :
    GoesOnBehind quote start offset (byte :: rest)
      ((bracesEnd? rest.tail).bind fun parts => closing? quote parts.2) := by
  rw [Front.ofBrace] at opens
  cases closed : bracesEnd? rest.tail with
  | none =>
      have isFlaw := flawFrom_eq (.quoted quote start) offset (byte :: rest)
      rw [opens, closed] at isFlaw
      simp only [Front.flaw] at isFlaw
      simp [GoesOnBehind, isFlaw]
  | some parts =>
      rw [closed] at opens
      have sized := length_of_bracesEnd? closed
      rw [List.length_tail] at sized
      have less : parts.2.length < (byte :: rest).length := by
        rw [List.length_cons]
        omega
      exact .ofPassed opens less (fun place => goesOn place _ less) offset

/-- The checker goes on behind the closing quote of a quoted word, or finds a flaw. -/
theorem flawFrom_quoted
    (quote : UInt8)
    (start offset : Nat)
    (text : Text) :
    GoesOnBehind quote start offset text (closing? quote text) := by
  induction size : text.length using Nat.strongRecOn generalizing offset text with
  | _ size inductionHypothesis =>
      subst size
      cases text with
      | nil =>
          have unclosed : flawFrom (.quoted quote start) offset [] = some ⟨.openQuote, start⟩ := rfl
          change flawFrom (.quoted quote start) offset [] ≠ none
          simp [unclosed]
      | cons byte rest =>
          have goesOn : ∀ (place : Nat) (shorter : Text),
              shorter.length < (byte :: rest).length →
              GoesOnBehind quote start place shorter (closing? quote shorter) :=
            fun place shorter less => inductionHypothesis _ less place shorter rfl
          have fronts := front.eq_def (.quoted quote start) (byte :: rest)
          simp only [beq_iff_eq, Bool.and_eq_true] at fronts
          rw [closing?_cons]
          split
          case isTrue isBackslash =>
            rw [if_pos isBackslash] at fronts
            have less : rest.tail.length < (byte :: rest).length := by
              rw [List.length_tail, List.length_cons]
              omega
            exact .ofPassed fronts less (fun place => goesOn place _ less) offset
          case isFalse notBackslash =>
            rw [if_neg notBackslash] at fronts
            split
            case isTrue closes =>
              rw [if_pos closes] at fronts
              exact flawFrom_of_passed fronts offset
            case isFalse notQuote =>
              rw [if_neg notQuote] at fronts
              split
              case isTrue isBracket =>
                rw [if_pos isBracket] at fronts
                exact .ofBracket fronts goesOn offset
              case isFalse notBracket =>
                rw [if_neg notBracket] at fronts
                split
                case isTrue opens =>
                  rw [if_pos opens] at fronts
                  exact .ofBrace fronts goesOn offset
                case isFalse opensNot =>
                  rw [if_neg opensNot] at fronts
                  have less : rest.length < (byte :: rest).length := Nat.lt_succ_self _
                  exact .ofPassed fronts less (fun place => goesOn place _ less) offset

end Source

/-- Two lists are written one behind the other. -/
theorem ListText.write_append
    (name : Text)
    (arguments : List Text)
    (word : Text)
    (words : List Text) :
    ListText.write (name :: arguments) ++ Byte.space :: ListText.write (word :: words) =
      ListText.write (name :: (arguments ++ word :: words)) := by
  induction arguments generalizing name with
  | nil => rw [List.nil_append, write_cons_cons, write_singleton name]
  | cons argument arguments inductionHypothesis =>
      rw [write_cons_cons, List.append_assoc, List.cons_append, inductionHypothesis,
        List.cons_append, write_cons_cons]

namespace Eval

variable {σ : Type} {setting : Setting} {expansion : Text}

/-! ## What a dollar runs -/

/-- A machine in a setting on which code can be run, with the code that a dollar stands for. -/
structure Poised (setting : Setting) (expansion : Text) (machine : Machine σ) : Prop where
  uncancelled : machine.interpreter.context = .background
  going : machine.interpreter.currentFrame.stopping = false
  atDepth : machine.interpreter.depth = setting.depth
  inLimit : machine.interpreter.limits.evaluations = setting.limit
  expands : machine.interpreter.dollar = expansion

/-- An action that ends on a poised machine and neither raises an error nor clears one. -/
def Passes (setting : Setting) (expansion : Text) (action : Eval σ Text) : Prop :=
  ∀ machine : Machine σ, Poised setting expansion machine →
    ∃ value after, action machine = .ok value after ∧ Poised setting expansion after ∧
      after.interpreter.error = machine.interpreter.error

/-- At the end of the text there are no more commands. -/
theorem commandsVia_end
    (call : List Text → Eval σ Text)
    (run : Run σ)
    (reader : Reader)
    (depth bound offset : Nat)
    (last : Text)
    (machine : Machine σ) :
    commandsVia call run reader depth bound ⟨[], offset⟩ last machine = .ok last machine := by
  cases bound <;> rfl

/-- One command that does nothing, with words that are written as a list. -/
theorem commandsVia_written
    (run : Run σ)
    (rounds : Nat)
    (reader : Reader)
    (busy : 0 < setting.depth)
    (name : Text)
    (arguments : List Text)
    {bound : Nat}
    (enough : (ListText.write (name :: arguments)).length < bound) :
    Passes setting expansion (commandsVia (doNothing run rounds) run reader bound bound
      (.start (ListText.write (name :: arguments))) []) := by
  intro machine poised
  obtain ⟨fewer, rfl⟩ : ∃ fewer, bound = fewer + 1 := ⟨bound - 1, by omega⟩
  obtain ⟨first, more, starting, -⟩ := ListText.write_startsWord name arguments
  have isMore : (Cursor.start (ListText.write (name :: arguments))).isDone = false := by
    simp [Cursor.start, Cursor.isDone, starting]
  rw [commandsVia, hasError_bind_apply, isMore, Bool.false_or]
  cases pending : machine.interpreter.error with
  | some error => exact ⟨[], machine, rfl, poised, pending⟩
  | none =>
      have poisedMarked : Poised setting expansion (marked machine 0) :=
        { poised with
          atDepth := by
            have atDepth := poised.atDepth
            simp only [Interpreter.depth, marked, List.length_cons, List.length_tail] at atDepth ⊢
            omega }
      have asked : cancellation (marked machine 0) = .ok none (marked machine 0) :=
        cancellation_of_uncancelled fun isRunning => by
          rw [poisedMarked.uncancelled] at isRunning
          cases isRunning
      have read := words_written reader run (fewer + 1) (marked machine 0) pending
        (name :: arguments) enough
      obtain ⟨after, called, poisedAfter, noError⟩ :
          ∃ after, doNothing run rounds (name :: arguments) (marked machine 0) = .ok [] after ∧
            Poised setting expansion after ∧ after.interpreter.error = none :=
        ⟨_, rfl, { poisedMarked with }, pending⟩
      have command : commandAtVia (doNothing run rounds) run (fewer + 1) reader
          (.start (ListText.write (name :: arguments))) machine =
            .ok ([], some ⟨[], (ListText.write (name :: arguments)).length⟩) after := by
        have marks : (markCommand (Cursor.start (ListText.write (name :: arguments))).offset :
            Eval σ Unit) machine = .ok () (marked machine 0) := rfl
        rw [commandAtVia, bind_of_ok marks, bind_of_ok asked]
        simp only
        rw [bind_of_ok read]
        simp only [hasError_bind_apply, marked_error, pending, Option.isSome_none,
          Bool.false_eq_true, if_false, List.isEmpty_cons]
        rw [bind_of_ok called, isStopping_bind_apply, poisedAfter.going]
        exact bind_of_ok (nextCommand_end reader _ after)
      refine ⟨[], after, ?_, poisedAfter, noError⟩
      simp only [Option.isSome_none, Bool.false_eq_true, if_false]
      rw [bind_of_ok command]
      exact commandsVia_end _ _ _ _ _ _ _ _

/-- A nested evaluation within the limit runs what is written as a list. -/
theorem evaluateVia_written
    (fuel : Nat)
    (busy : 0 < setting.depth)
    (fits : setting.depth < setting.limit)
    (name : Text)
    (arguments : List Text) :
    Passes (σ := σ) setting expansion
      (evaluateVia doNothing (fuel + 1) (ListText.write (name :: arguments)) false) := by
  intro machine poised
  let code := ListText.write (name :: arguments)
  have isNested : machine.interpreter.active.isEmpty = false := by
    have atDepth := poised.atDepth
    cases shape : machine.interpreter.active with
    | nil =>
        simp only [Interpreter.depth, shape, List.length_nil] at atDepth
        omega
    | cons _ _ => rfl
  have poisedInside : Poised setting.nested expansion (entered code machine) :=
    { poised with
      atDepth := congrArg Nat.succ poised.atDepth }
  have within : (entered code machine).interpreter.depth ≤
      (entered code machine).interpreter.limits.evaluations := by
    rw [poisedInside.atDepth, poisedInside.inLimit]
    exact fits
  obtain ⟨value, between, ran, poisedBetween, sameError⟩ :=
    commandsVia_written (evaluateVia doNothing fuel) fuel ⟨false, false⟩ (Nat.succ_pos _) name
      arguments (Nat.lt_succ_self _) (entered code machine) poisedInside
  obtain ⟨world, told⟩ := reportError_apply between
  refine ⟨value, left machine ⟨between.interpreter, world⟩, ?_,
    { poisedBetween with atDepth := poised.atDepth }, sameError⟩
  have performed : performTextVia (doNothing (evaluateVia doNothing fuel) fuel)
      (evaluateVia doNothing fuel) code false false (entered code machine) =
        .ok value ⟨between.interpreter, world⟩ := by
    rw [performTextVia, bind_of_ok (skipBlanks_written _ _ _), bind_of_ok ran, bind_of_ok told]
    rfl
  rw [evaluateVia, scriptVia, isNested, ensuring,
    scriptBodyVia_of_within _ _ code false false within]
  simp only [prepared, Bool.false_eq_true, if_false]
  rw [performed]

/-- Where a dollar stands for the beginning of a command, running that with a name passes. -/
theorem evaluateVia_dollar
    (fuel : Nat)
    (busy : 0 < setting.depth)
    (fits : setting.depth < setting.limit)
    {command : List Text}
    (isCommand : command ≠ [])
    (expands : expansion = ListText.write command ++ [Byte.space])
    (word : Text) :
    Passes (σ := σ) setting expansion
      (evaluateVia doNothing (fuel + 1) (expansion ++ ListText.write [word]) false) := by
  obtain ⟨name, arguments, rfl⟩ := List.exists_cons_of_ne_nil isCommand
  rw [expands, List.append_assoc, List.singleton_append, ListText.write_append]
  exact evaluateVia_written fuel busy fits name (arguments ++ [word])

/-! ## Where readers stop -/

/-- A cursor stops before what is left of a text; if the text has no end, a flaw is pending. -/
def StopsAt (cursor stop : Cursor) (pending : Option ScriptError) : Option Text → Prop
  | some rest =>
      pending = none ∧ stop.rest = rest ∧ rest <:+ cursor.rest ∧
        stop.offset + rest.length = cursor.offset + cursor.rest.length
  | none => ∃ error flaw, pending = some error ∧ error.reason = .malformed flaw

/-- On a poised machine on which nothing has gone wrong a reader stops before what is left. -/
def ReadsUpTo (setting : Setting) (expansion : Text) (cursor : Cursor) (left? : Option Text)
    (action : Eval σ (Text × Cursor)) : Prop :=
  ∀ machine : Machine σ, Poised setting expansion machine → machine.interpreter.error = none →
    ∃ value stop after, action machine = .ok (value, stop) after ∧ Poised setting expansion after ∧
      StopsAt cursor stop after.interpreter.error left?

namespace ReadsUpTo

variable {cursor : Cursor} {left? : Option Text}

theorem pure
    (value : Text)
    {rest : Text}
    {offset : Nat}
    (suffix : rest <:+ cursor.rest)
    (sized : offset + rest.length = cursor.offset + cursor.rest.length) :
    ReadsUpTo (σ := σ) setting expansion cursor (some rest) (Pure.pure (value, ⟨rest, offset⟩)) :=
  fun machine poised noError =>
    ⟨value, ⟨rest, offset⟩, machine, rfl, poised, noError, rfl, suffix, sized⟩

/-- A flaw is reported. -/
theorem malformed
    (reader : Reader)
    (offset : Nat)
    (flaw : Flaw)
    (read : Text × Cursor) :
    ReadsUpTo (σ := σ) setting expansion cursor none
      (Eval.malformed reader offset flaw >>= fun _ => Pure.pure read) := by
  intro machine poised noError
  obtain ⟨place, after, ran, pending, -⟩ := malformed_of_unfailed reader offset flaw noError
  have onlyError : ∃ error world,
      after = ⟨{ machine.interpreter with error := some error }, world⟩ := by
    have raised := ran
    rw [Eval.malformed] at raised
    split at raised
    · obtain ⟨error, world, same⟩ := raiseAt_apply offset (.malformed flaw) machine
      rw [same] at raised
      cases raised
      exact ⟨error, world, rfl⟩
    · obtain ⟨error, world, same⟩ := raise_apply (.malformed flaw) machine
      rw [same] at raised
      cases raised
      exact ⟨error, world, rfl⟩
  obtain ⟨error, world, rfl⟩ := onlyError
  exact ⟨read.1, read.2, _, bind_of_ok ran, { poised with }, _, flaw, pending, rfl⟩

/-- What is read of a rest of the text is read of the text. -/
theorem of_suffix
    {later : Cursor}
    {action : Eval σ (Text × Cursor)}
    (reads : ReadsUpTo setting expansion later left? action)
    (suffix : later.rest <:+ cursor.rest)
    (sized : later.offset + later.rest.length = cursor.offset + cursor.rest.length) :
    ReadsUpTo setting expansion cursor left? action := by
  intro machine poised noError
  obtain ⟨value, stop, after, ran, poisedAfter, stops⟩ := reads machine poised noError
  refine ⟨value, stop, after, ran, poisedAfter, ?_⟩
  cases left? with
  | none => exact stops
  | some rest =>
      obtain ⟨noErrorAfter, isRest, isSuffix, sizedAfter⟩ := stops
      exact ⟨noErrorAfter, isRest, isSuffix.trans suffix, sizedAfter.trans sized⟩

/-- What changes nothing may be done before. -/
theorem after
    {place : Cursor}
    {skips : Eval σ Cursor}
    {next : Cursor → Eval σ (Text × Cursor)}
    (skipped : ∀ machine, skips machine = .ok place machine)
    (reads : ReadsUpTo setting expansion cursor left? (next place)) :
    ReadsUpTo setting expansion cursor left? (skips >>= next) := by
  intro machine poised noError
  rw [bind_of_ok (skipped machine)]
  exact reads machine poised noError

/-- What stands behind a dollar is read as a part, and the code that reads the variable passes. -/
theorem dollarPart
    {run : Run σ}
    (passes : ∀ word, Passes setting expansion (run (expansion ++ ListText.write [word]) false))
    {name : Eval σ (Text × Cursor)}
    (reads : ReadsUpTo setting expansion cursor left? name) :
    ReadsUpTo setting expansion cursor left? (Eval.dollarPart run name) := by
  intro machine poised noError
  obtain ⟨word, stop, between, ran, poisedBetween, stops⟩ := reads machine poised noError
  obtain ⟨value, after, served, poisedAfter, sameError⟩ := passes word between poisedBetween
  refine ⟨value, stop, after, ?_, poisedAfter, sameError ▸ stops⟩
  rw [Eval.dollarPart, bind_of_ok ran]
  simp only [inspect_bind_apply, poisedBetween.expands]
  exact bind_of_ok served

/-- A reader goes on where another one has stopped, unless that one reports a flaw. -/
theorem unlessFailed
    {first : Eval σ (Text × Cursor)}
    {next : Text → Cursor → Eval σ (Text × Cursor)}
    {next? : Text → Option Text}
    (ended : Text → Text)
    (reads : ReadsUpTo setting expansion cursor left? first)
    (goesOn : ∀ value stop, stop.rest <:+ cursor.rest →
      ReadsUpTo setting expansion stop (next? stop.rest) (next value stop)) :
    ReadsUpTo setting expansion cursor (left?.bind next?) (Eval.unlessFailed first ended next) := by
  intro machine poised noError
  obtain ⟨value, stop, between, ran, poisedBetween, stops⟩ := reads machine poised noError
  rw [Eval.unlessFailed, bind_of_ok ran]
  simp only [hasError_bind_apply]
  cases left? with
  | none =>
      obtain ⟨error, flaw, pending, reason⟩ := stops
      rw [pending]
      exact ⟨_, _, between, rfl, poisedBetween, error, flaw, pending, reason⟩
  | some rest =>
      obtain ⟨noErrorBetween, rfl, suffix, sized⟩ := stops
      rw [noErrorBetween]
      exact (goesOn value stop suffix).of_suffix suffix sized between poisedBetween noErrorBetween

end ReadsUpTo

/-- A quoted part is read up to where the text says that it ends. -/
theorem quotedPart_readsUpTo
    (reader : Reader)
    {run : Run σ}
    (passes : ∀ word, Passes setting expansion (run (expansion ++ ListText.write [word]) false))
    {name : Cursor → Eval σ (Text × Cursor)}
    {nameEnd? : Text → Option Text}
    (named : ∀ cursor : Cursor, Tame cursor.rest →
      ReadsUpTo setting expansion cursor (nameEnd? cursor.rest) (name cursor))
    (quote : UInt8)
    (start bound : Nat) :
    ∀ (cursor : Cursor) (done : Text), Tame cursor.rest →
      ReadsUpTo setting expansion cursor (quotedEnd? nameEnd? quote bound cursor.rest)
        (quotedPart reader run name quote start bound cursor done) := by
  induction bound with
  | zero => exact fun cursor done tame => .pure _ List.suffix_rfl rfl
  | succ bound inductionHypothesis =>
      intro cursor done tame
      obtain ⟨text, offset⟩ := cursor
      have isRest := Source.quotedRun_rest quote text offset done
      rw [quotedEnd?, ← isRest]
      cases ran : quotedRun quote text offset done with
      | mk literal stop =>
          obtain ⟨left, place⟩ := stop
          cases left with
          | nil =>
              rw [quotedPart]
              simp only [ran]
              exact .malformed reader start .openQuote _
          | cons byte rest =>
              obtain ⟨suffix, sized, -, -⟩ := Source.quotedRun_inside quote (text.length + 1) text
                offset done literal _ (Nat.lt_succ_self _) ran (List.cons_ne_nil _ _)
              have tameLeft := tame.of_suffix suffix
              have isSuffix := (List.suffix_cons byte rest).trans suffix
              simp only [List.length_cons] at sized
              rw [quotedPart_of_run reader run name quote start bound ran]
              simp only
              split
              case isTrue isDollar =>
                have isName := named ⟨rest, place + 1⟩ (tame.of_suffix isSuffix)
                have goesOn := (isName.dollarPart passes).unlessFailed
                  (fun value => (value.reverse ++ literal).reverse)
                  fun value stop further => inductionHypothesis stop (value.reverse ++ literal)
                    (tame.of_suffix (further.trans isSuffix))
                exact goesOn.of_suffix isSuffix (by simp only; omega)
              case isFalse notDollar =>
                have notBracket : (byte == Byte.openBracket) = false := by
                  simpa using (tameLeft byte (by simp)).2
                simp only [notBracket, Bool.false_eq_true, if_false]
                exact .pure _ isSuffix (by simp only; omega)

/-- A part is read up to where the text says that it ends. -/
theorem part_readsUpTo
    (reader : Reader)
    {run : Run σ}
    (passes : ∀ word, Passes setting expansion (run (expansion ++ ListText.write [word]) false))
    (bound : Nat) :
    ∀ cursor : Cursor, Tame cursor.rest →
      ReadsUpTo setting expansion cursor (partEnd? reader.acrossLines bound cursor.rest)
        (part reader run bound cursor) := by
  induction bound with
  | zero => exact fun cursor tame => .pure _ List.suffix_rfl rfl
  | succ bound inductionHypothesis =>
      intro cursor tame
      obtain ⟨text, offset⟩ := cursor
      replace tame : Tame text := tame
      obtain ⟨blanks, isText, -, -, skips⟩ := Source.exists_blanks reader.acrossLines tame
      have suffix := Source.behindBlanks_suffix reader.acrossLines tame
      have sized := congrArg List.length isText
      rw [List.length_append] at sized
      rw [part_succ, partEnd?]
      refine .after (fun machine => skipBlanks_apply (skips offset)) ?_
      generalize behindBlanks reader.acrossLines text = left at suffix sized
      refine ReadsUpTo.of_suffix
        (?_ : ReadsUpTo setting expansion ⟨left, offset + blanks.length⟩ _ _) suffix
        (by simp only; omega)
      have tameLeft := tame.of_suffix suffix
      cases left with
      | nil => exact .pure _ List.suffix_rfl rfl
      | cons byte rest =>
          have tameRest := tameLeft.of_suffix (List.suffix_cons byte rest)
          have isSuffix := List.suffix_cons byte rest
          have notBracket : (byte == Byte.openBracket) = false := by
            simpa using (tameLeft byte (by simp)).2
          simp only [partAt, notBracket, Bool.false_eq_true, if_false]
          generalize offset + blanks.length = place
          have next : place + 1 + rest.length = place + (byte :: rest).length := by
            rw [List.length_cons]
            omega
          split
          case isTrue isDollar =>
            exact ((inductionHypothesis ⟨rest, place + 1⟩ tameRest).dollarPart passes).of_suffix
              isSuffix next
          case isFalse notDollar =>
            split
            case isTrue isBrace =>
              rw [bracePart]
              cases closed : Source.bracesEnd? rest with
              | none => exact .malformed reader _ .openBrace _
              | some parts =>
                  have isBehind := (Source.balanced?_sized closed).1.trans isSuffix
                  have sizedInside := Source.length_of_bracesEnd? closed
                  exact .pure _ isBehind (by simp only [List.length_cons]; omega)
            case isFalse notBrace =>
              split
              case isTrue isQuote =>
                exact (quotedPart_readsUpTo reader passes inductionHypothesis byte place (bound + 1)
                  ⟨rest, place + 1⟩ [] tameRest).of_suffix isSuffix next
              case isFalse notQuote =>
                refine .pure _ (List.dropWhile_suffix _) ?_
                have whole := Source.length_takeWhile_add isBare (byte :: rest)
                simp only
                omega

/-! ## The same closing quote -/

/-- A reader stops in one place only. -/
theorem StopsAt.eq
    {cursor stop : Cursor}
    {pending : Option ScriptError}
    {left? other? : Option Text}
    (stops : StopsAt cursor stop pending left?)
    (stopsThere : StopsAt cursor stop pending other?) :
    left? = other? := by
  cases left? with
  | none =>
      obtain ⟨error, flaw, failed, -⟩ := stops
      cases other? with
      | none => rfl
      | some other => cases failed.symm.trans stopsThere.1
  | some rest =>
      cases other? with
      | none =>
          obtain ⟨error, flaw, failed, -⟩ := stopsThere
          cases failed.symm.trans stops.1
      | some other => rw [← stops.2.1, ← stopsThere.2.1]

/--
Where the checker and the reader of a quoted word agree, for every text without brackets and
comments behind a quote, with commands that do nothing and a dollar that stands for the beginning
of a command.  The checker either goes on behind the quote that it takes for the closing one, or
finds a flaw.  The reader stops behind the quote that ends the text for it, or reports a flaw.  Both
do the same, leaving the same text or finding a flaw, exactly if no name that the reader meets in
the word hides the checker's quote or splits an escaped one.
-/
theorem quoted_word_read_as_checked_iff
    {quote : UInt8}
    (isQuote : IsQuote quote)
    {text : Text}
    (tame : Tame text)
    (reader : Reader)
    {bound : Nat}
    (small : text.length ≤ bound)
    (offset fuel : Nat)
    {machine : Machine σ}
    (quiet : Quiet setting machine)
    (busy : 0 < setting.depth)
    (fits : setting.depth < setting.limit)
    {command : List Text}
    (isCommand : command ≠ [])
    (expands : machine.interpreter.dollar = ListText.write command ++ [Byte.space]) :
    (∀ start, Source.GoesOnBehind quote start (offset + 1) text (closing? quote text)) ∧
      ∃ value stop after,
        part reader (evaluateVia doNothing (fuel + 1)) (bound + 1) ⟨quote :: text, offset⟩ machine =
            .ok (value, stop) after ∧
          StopsAt ⟨quote :: text, offset⟩ stop after.interpreter.error
            (quotedEnd? (partEnd? reader.acrossLines bound) quote (bound + 1) text) ∧
          (StopsAt ⟨quote :: text, offset⟩ stop after.interpreter.error (closing? quote text) ↔
            ∀ name ∈ names (partEnd? reader.acrossLines bound) quote (bound + 1) text,
              name.Clear quote (closing? quote text)) := by
  refine ⟨fun start => Source.flawFrom_quoted quote start _ text, ?_⟩
  have poised : Poised setting machine.interpreter.dollar machine := { quiet with expands := rfl }
  have passes := evaluateVia_dollar (σ := σ) fuel busy fits isCommand expands
  have tameWord : Tame (quote :: text) := by
    rintro byte (_ | ⟨_, member⟩)
    · rcases isQuote with rfl | rfl <;> decide
    · exact tame byte member
  obtain ⟨value, stop, after, ran, -, stops⟩ := part_readsUpTo reader passes (bound + 1)
    ⟨quote :: text, offset⟩ tameWord machine poised quiet.noError
  rw [Source.partEnd?_quote isQuote] at stops
  refine ⟨value, stop, after, ran, stops, ?_⟩
  rw [← Source.quotedEnd?_eq_closing?_iff isQuote reader.acrossLines bound (bound + 1) text text
    (Nat.lt_succ_of_le small) small tame .same fun _ => rfl]
  exact ⟨fun same => stops.eq same, fun same => same ▸ stops⟩

/-- The text `a$x" b`, of which a quoted word takes all up to the blank. -/
def textWithName : Text :=
  [0x61, Byte.dollar, 0x78, Byte.doubleQuote, Byte.space, 0x62]

/-- A quoted word with a name in it ends at the same quote for both. -/
theorem quoted_word_read_as_checked_iff_named :
    (Source.flawFrom (.quoted Byte.doubleQuote 0) 1 textWithName =
        Source.flawFrom (.words false) 5 [Byte.space, 0x62]) ∧
      ∃ value stop after,
        part ⟨true, false⟩ (evaluateVia doNothing 1) 7 ⟨Byte.doubleQuote :: textWithName, 0⟩
            (marked (Machine.start () {} {}) 0) = .ok (value, stop) after ∧
          after.interpreter.error = none ∧ stop = ⟨[Byte.space, 0x62], 5⟩ := by
  have quiet : Quiet ⟨1, 1000, []⟩ (marked (Machine.start () {} {}) 0) :=
    ⟨rfl, rfl, rfl, rfl, rfl, rfl⟩
  obtain ⟨checks, value, stop, after, ran, -, iff⟩ := quoted_word_read_as_checked_iff
    (.inl rfl : IsQuote Byte.doubleQuote) (show Tame textWithName by decide) ⟨true, false⟩
    (Nat.le_refl 6 : textWithName.length ≤ 6) 0 0 quiet (show 0 < 1 by decide)
    (show 1 < 1000 by decide) (List.cons_ne_nil (Text.ofString "set") []) (by decide)
  have closed : closing? Byte.doubleQuote textWithName = some [Byte.space, 0x62] := by decide
  have goesOn := checks 0
  have stops := iff.mpr (by decide)
  rw [closed] at goesOn stops
  obtain ⟨noError, isRest, -, sized⟩ := stops
  obtain ⟨rest, place⟩ := stop
  obtain rfl : rest = [Byte.space, 0x62] := isRest
  obtain rfl : place = 5 := Nat.add_right_cancel sized
  exact ⟨goesOn, value, _, after, ran, noError, rfl⟩

/-- The code `"$"`. -/
def loneDollar : Text :=
  [Byte.doubleQuote, Byte.dollar, Byte.doubleQuote]

/-- The checker accepts a word in which the reader takes the closing quote for an opening one. -/
theorem quoted_word_checked_not_read :
    Source.check loneDollar = none ∧
      ((Machine.start () {} {}).perform
          (evaluateIn (evaluateVia doNothing 2) .background loneDollar)).1 =
        .finished ⟨[], some (.script (.locate (.malformed .openQuote) loneDollar 2))⟩ :=
  ⟨by decide, rfl⟩

end Eval

end LittleScript
