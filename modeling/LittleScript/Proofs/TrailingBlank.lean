import LittleScript.Proofs.ControlState
import LittleScript.Proofs.LongerCommands

namespace LittleScript.Eval

/-!
# Trivia behind a script

What a line break and trivia behind a script do to its value.  The commands of the script run as
without them.  Trivia that the blank stretch behind the separators does not reach to its end starts
one more round, which has no words: its empty value replaces that of the last command, unless the
script has ended before it gets there or owns a result.
-/

open Source (Cursor Skips)

variable {σ : Type}

/-- Two machines have the same frames and the same current frame. -/
def SameFrames (machine other : Machine σ) : Prop :=
  other.interpreter.frames = machine.interpreter.frames ∧
    other.interpreter.current = machine.interpreter.current

theorem SameFrames.currentFrame_eq
    {machine other : Machine σ}
    (same : SameFrames machine other) :
    other.interpreter.currentFrame = machine.interpreter.currentFrame := by
  rw [Interpreter.currentFrame, Interpreter.frame, same.1, same.2]
  rfl

/-- The value of a script with trivia behind it, given the value without. -/
def trailingValue (ended : Bool) (tail more value : Text) : Text :=
  if ended || (Source.nextText (tail ++ Byte.newline :: more)).isEmpty then value else []

/-! ## Rounds -/

section Lines

variable {reader : Reader} (lines : reader.acrossLines = false)

include lines

/-- Trivia has rounds without words, which have an empty value and leave the frames alone. -/
theorem commands_of_trivia
    (run : Run σ)
    (rounds depth bound : Nat) :
    ∀ (text : Text) (offset : Nat) (last : Text) (machine : Machine σ),
      text ≠ [] →
      text.length < bound →
      Source.isTrivia text = true →
      Source.atBreak text = true →
      machine.interpreter.error = none →
      machine.interpreter.currentFrame.stopping = false →
      ∃ final, commands run rounds reader (depth + 1) bound ⟨text, offset⟩ last machine =
          .ok [] final ∧
        SameFrames machine final := by
  induction bound with
  | zero =>
      intro text offset last machine notEmpty enough
      omega
  | succ bound inductionHypothesis =>
      intro text offset last machine notEmpty enough trivia atBreak noError going
      rw [commands_of_going run rounds reader (depth + 1) bound notEmpty last noError]
      by_cases uncancelled :
          machine.interpreter.context = .running → machine.world.cancellation = none
      · have settled := skipBlanks_of_skips lines (Source.skips_of_atBreak atBreak) offset
          (marked machine offset)
        have read : words reader run (depth + 1) ⟨text, offset⟩ (marked machine offset) =
            .ok (some ([], ⟨text, offset⟩)) (marked machine offset) := by
          rw [Nat.sub_self, Nat.add_zero] at settled
          rw [words, bind_of_ok settled]
          exact wordsFrom_of_atBreak lines run _ _ atBreak _ _ _
        have called : callWords run rounds [] (marked machine offset) =
            .ok [] (marked machine offset) := rfl
        obtain ⟨rest, skips, suffix, isTrivia, atBreakRest⟩ :=
          Source.skips_dropWhile_of_trivia trivia
        have moved := nextCommand_of_skips lines atBreak skips offset (marked machine offset)
        have ranRound : commandAt run rounds (depth + 1) reader ⟨text, offset⟩ machine =
            .ok ([], some ⟨rest, offset + (text.length - rest.length)⟩)
              (marked machine offset) := by
          rw [commandAt_of_words rounds uncancelled read noError,
            callCommand_of_going reader _ called going, bind_of_ok moved]
          rfl
        simp only [bind_of_ok ranRound]
        by_cases ended : rest = []
        · subst ended
          exact ⟨_, commands_end run rounds reader _ _ _ _ _, rfl, rfl⟩
        · have shorter := skips.suffix.length_le
          have dropped := Source.length_dropWhile_lt notEmpty atBreak
          exact inductionHypothesis rest _ [] (marked machine offset) ended (by omega) isTrivia
            atBreakRest noError going
      · obtain ⟨error, world, failed⟩ :=
          commandAt_of_cancelled run rounds (depth + 1) reader ⟨text, offset⟩ uncancelled
        rw [bind_of_ok failed]
        exact ⟨_, rfl, rfl, rfl⟩

omit lines in
/--
How a round that leaves `tail` of a text ends in the text itself and in the longer one: both leave
their frame, or both go on with a command, or the text ends and the longer one has trivia left.
-/
inductive RoundExtends (more text tail : Text) (stopping : Bool) :
    Text × Option Cursor → Text × Option Cursor → Prop where
  | stops (value : Text) :
      stopping = true →
      RoundExtends more text tail stopping (value, none) (value, none)
  | goes {rest : Text} (value : Text) (stop : Nat) :
      stopping = false → rest ≠ [] → Source.nextText tail = rest → Skips .plain rest rest →
      rest <:+ text → rest.length < text.length →
      RoundExtends more text tail stopping (value, some ⟨rest, stop⟩)
        (value, some ⟨rest ++ Byte.newline :: more, stop⟩)
  | ends {rest : Text} (value : Text) (stop longStop : Nat) :
      stopping = false → Source.nextText tail = [] →
      Source.nextText (tail ++ Byte.newline :: more) = rest → rest <:+ Byte.newline :: more →
      Source.isTrivia rest = true → Source.atBreak rest = true →
      RoundExtends more text tail stopping (value, some ⟨[], stop⟩) (value, some ⟨rest, longStop⟩)

/-- A round without an error runs alike in a longer text. -/
theorem commandAt_extends
    {run : Run σ}
    (nestable : Nestable run)
    {more : Text}
    (trivia : Source.isTrivia more = true)
    (rounds : Nat)
    {depth longDepth : Nat}
    {text : Text}
    {offset : Nat}
    {machine final : Machine σ}
    {round : Text × Option Cursor}
    (notEmpty : text ≠ [])
    (settled : Skips .plain text text)
    (deep : Fits more text (depth + 1) (longDepth + 1))
    (noBackslash : text.getLast? ≠ some Byte.backslash)
    (ran : commandAt run rounds (depth + 1) reader ⟨text, offset⟩ machine = .ok round final)
    (noError : final.interpreter.error = none) :
    ∃ longRound,
      commandAt run rounds (longDepth + 1) reader ⟨text ++ Byte.newline :: more, offset⟩ machine =
        .ok longRound final ∧
      RoundExtends more text (Source.roundTail (depth + 1) text)
        final.interpreter.currentFrame.stopping round longRound ∧
      (Source.atBreak text = true → round.1 = []) := by
  obtain ⟨uncancelled, result, ready, read, ranCall⟩ := commandAt_cases ran noError
  have noErrorReady : ready.interpreter.error = none := by
    rcases ranCall with ⟨_, rfl⟩ | ⟨_, _, _, noErrorReady, _⟩
    · exact noError
    · exact noErrorReady
  obtain ⟨command, after, longer, rfl, readLonger, reads, isEmpty, shorter⟩ :=
    words_extends lines nestable trivia notEmpty settled deep noBackslash
      (by simp [marked]) read noErrorReady
  rcases ranCall with ⟨isNone, _⟩ | ⟨_, _, isCommand, _, called⟩
  · cases isNone
  cases isCommand
  rw [commandAt_of_words rounds uncancelled readLonger noErrorReady]
  obtain ⟨value, between, calledWords, ranNext⟩ := bind_eq_ok called
  have emptyValue : Source.atBreak text = true → value = [] := by
    intro atBreak
    rw [callWords, isEmpty, atBreak] at calledWords
    cases calledWords
    rfl
  cases stopping : between.interpreter.currentFrame.stopping with
  | true =>
      rw [callCommand_of_stopping reader after calledWords stopping] at called
      cases called
      refine ⟨_, callCommand_of_stopping reader longer calledWords stopping, ?_, emptyValue⟩
      rw [stopping]
      exact .stops value rfl
  | false =>
      rw [callCommand_of_going reader after calledWords stopping] at called
      rw [callCommand_of_going reader longer calledWords stopping]
      obtain ⟨next, moved, ranMove, returned⟩ := bind_eq_ok called
      cases returned
      rcases nextCommand_cases lines reads.atBreak after.offset between with
        ⟨rest, skips, reached⟩ | ⟨stop, failed, reached, pending⟩
      · rw [show nextCommand reader after between = _ from reached] at ranMove
        cases ranMove
        have found := Source.nextText_of_skips reads.skips skips
        by_cases ended : rest = []
        · subst ended
          obtain ⟨place, longStop, foundMore, movedMore, suffix, isTrivia, atBreak⟩ :=
            nextCommand_append_end lines trivia reads skips final
          refine ⟨_, bind_of_ok movedMore, ?_, emptyValue⟩
          rw [stopping]
          exact .ends value _ longStop rfl found foundMore suffix isTrivia atBreak
        · have less := skips.suffix.length_le
          have suffix :=
            skips.suffix.trans ((List.dropWhile_suffix Byte.isSeparator).trans reads.suffix)
          have movedMore :=
            nextCommand_append_inside lines trivia noBackslash reads skips ended final
          refine ⟨_, bind_of_ok movedMore, ?_, emptyValue⟩
          rw [stopping]
          exact .goes value _ rfl ended found skips.settled suffix
            (Nat.lt_of_le_of_lt less shorter)
      · rw [show nextCommand reader after between = _ from reached] at ranMove
        cases ranMove
        exact absurd noError pending

/--
The commands of a text run alike in a longer one, where trivia may empty the last value.  An error
of the last round would still be pending in the end, for it ends the commands.
-/
theorem commands_extends
    {run : Run σ}
    (nestable : Nestable run)
    {more : Text}
    (trivia : Source.isTrivia more = true)
    (rounds depth longDepth bound : Nat) :
    ∀ (longBound : Nat) (text : Text) (offset : Nat) (last : Text) (before : Option Text)
      (tail : Text) (machine final : Machine σ) (value : Text),
      text ≠ [] →
      Skips .plain text text →
      Fits more text bound longBound →
      Fits more text (depth + 1) (longDepth + 1) →
      text.getLast? ≠ some Byte.backslash →
      Source.tailFrom (depth + 1) bound text before = some tail →
      commands run rounds reader (depth + 1) bound ⟨text, offset⟩ last machine =
        .ok value final →
      final.interpreter.error = none →
      ∃ longFinal,
        commands run rounds reader (longDepth + 1) longBound
            ⟨text ++ Byte.newline :: more, offset⟩ last machine =
          .ok (trailingValue final.interpreter.currentFrame.stopping tail more value) longFinal ∧
        SameFrames final longFinal := by
  induction bound with
  | zero =>
      intro longBound text offset last before tail machine final value notEmpty settled fits
      exact absurd fits.enough (Nat.not_lt_zero _)
  | succ bound inductionHypothesis =>
      intro longBound text offset last before tail machine final value notEmpty settled fits deep
        noBackslash lastTail ran noError
      obtain ⟨longBound, rfl⟩ := fits.long_succ
      have notEmptyMore : text ++ Byte.newline :: more ≠ [] := by simp
      by_cases noErrorBefore : machine.interpreter.error = none
      case neg =>
        rw [commands_of_pending run rounds reader _ _ _ last noErrorBefore] at ran
        cases ran
        exact absurd noError noErrorBefore
      rw [commands_of_going run rounds reader _ _ notEmpty last noErrorBefore] at ran
      rw [commands_of_going run rounds reader _ _ notEmptyMore last noErrorBefore]
      obtain ⟨round, between, ranRound, ranRest⟩ := bind_eq_ok ran
      have noErrorBetween : between.interpreter.error = none := by
        refine Classical.byContradiction fun pending => ?_
        obtain ⟨first, next⟩ := round
        cases next with
        | none =>
            cases ranRest
            exact pending noError
        | some next =>
            rw [afterRound, commands_of_pending run rounds reader _ _ _ _ pending] at ranRest
            cases ranRest
            exact pending noError
      obtain ⟨longRound, ranLonger, alike, emptyValue⟩ :=
        commandAt_extends lines nestable trivia rounds notEmpty settled deep noBackslash ranRound
          noErrorBetween
      rw [bind_of_ok ranLonger]
      rw [Source.tailFrom] at lastTail
      cases alike with
      | stops first stopping =>
          cases ranRest
          refine ⟨final, ?_, rfl, rfl⟩
          simp [afterRound, trailingValue, stopping]
      | @goes rest first stop going inside found settledRest suffix shorter =>
          rw [found] at lastTail
          exact inductionHypothesis longBound rest stop first _ tail between final value inside
            settledRest (fits.later shorter) (deep.of_le (Nat.le_of_lt shorter))
            (Source.getLast?_ne_of_suffix suffix noBackslash) lastTail ranRest noError
      | @ends rest first stop longStop going found foundMore suffix isTrivia atBreak =>
          rw [afterRound, commands_end] at ranRest
          cases ranRest
          rw [found, Source.tailFrom_nil] at lastTail
          have expected :
              trailingValue final.interpreter.currentFrame.stopping tail more value =
                if rest.isEmpty then value else [] := by
            cases words : Source.atBreak text with
            | true =>
                obtain rfl : value = [] := emptyValue words
                simp [trailingValue]
            | false =>
                simp only [words, Bool.false_eq_true, if_false, Option.some.injEq] at lastTail
                rw [trailingValue, going, ← lastTail, foundMore, Bool.false_or]
          rw [expected]
          by_cases left : rest = []
          · subst left
            exact ⟨final, commands_end run rounds reader _ _ _ _ _, rfl, rfl⟩
          · have enough : rest.length < longBound := by
              have shorter := suffix.length_le
              have longEnough := fits.longEnough
              have positive := List.length_pos_iff.mpr notEmpty
              simp only [List.length_cons] at shorter
              omega
            rw [if_neg (by simpa using left)]
            exact commands_of_trivia lines run rounds longDepth longBound rest longStop value final
              left enough isTrivia atBreak noErrorBetween going

/-- A text with a command runs alike when a line break and trivia follow it. -/
theorem runText_extends
    {run : Run σ}
    (nestable : Nestable run)
    (rounds : Nat)
    {code more tail : Text}
    (trivia : Source.isTrivia more = true)
    (noBackslash : code.getLast? ≠ some Byte.backslash)
    (lastCommand : Source.lastTail code = some tail)
    {machine final : Machine σ}
    {value : Text}
    (ran : runText run rounds reader code machine = .ok value final)
    (noError : final.interpreter.error = none) :
    ∃ longFinal, runText run rounds reader (code ++ Byte.newline :: more) machine =
        .ok (trailingValue final.interpreter.currentFrame.stopping tail more value) longFinal ∧
      SameFrames final longFinal := by
  rcases skipBlanks_cases lines (.start code) machine with
    ⟨rest, skips, skipped⟩ | ⟨stop, failed, skipped, pending, _⟩
  · have found : Source.pastBlanks code = rest := skips.pastBlanks_eq
    have suffix : rest <:+ code := skips.suffix
    have shorter := suffix.length_le
    have notEmpty : rest ≠ [] := by
      rintro rfl
      rw [Source.lastTail, found, Source.tailFrom_nil] at lastCommand
      cases lastCommand
    have skipsMore : Skips .plain (code ++ Byte.newline :: more) (rest ++ Byte.newline :: more) :=
      skips.append_inside notEmpty noBackslash more
    have longSkipped := skipBlanks_of_skips lines skipsMore 0 machine
    rw [runText, bind_of_ok skipped] at ran
    rw [runText, Cursor.start, bind_of_ok longSkipped]
    rw [Source.lastTail, found] at lastCommand
    simp only [List.length_append, Nat.add_sub_add_right]
    have fits : Fits more code (code.length + 1)
        (code.length + (Byte.newline :: more).length + 1) :=
      ⟨Nat.lt_succ_self _, Nat.lt_succ_self _⟩
    exact commands_extends lines nestable trivia rounds code.length _ (code.length + 1) _ rest _ []
      none tail machine final value notEmpty skips.settled (fits.of_le shorter)
      (fits.of_le shorter) (Source.getLast?_ne_of_suffix suffix noBackslash) lastCommand ran noError
  · rw [runText, bind_of_ok skipped, commands_end] at ran
    cases ran
    exact absurd noError pending

end Lines

/-! ## Scripts -/

/-- A nested script does not clear an error that is pending. -/
theorem runCommands_of_pending
    {run : Run σ}
    {rounds : Nat}
    {code value : Text}
    {machine final : Machine σ}
    (pending : machine.interpreter.error ≠ none)
    (ran : runCommands run rounds code false false machine = .ok value final) :
    final.interpreter.error ≠ none := by
  obtain ⟨_, between, world, ranText, rfl⟩ := runCommands_eq_ok ran
  have lines : (Reader.mk false false).acrossLines = false := rfl
  have same : prepared false false machine = machine := rfl
  rw [same] at ranText
  obtain ⟨place, after, skipped, stillPending, _⟩ :=
    skipBlanks_of_pending lines (.start code) pending
  rw [runText, bind_of_ok skipped, commands_of_pending run rounds _ _ _ _ _ stillPending] at ranText
  cases ranText
  exact stillPending

/-- Evaluation nests as the reader of a longer text needs it. -/
theorem nestable_evaluate
    (fuel : Nat) :
    Nestable (σ := σ) (evaluate fuel) where
  active := by
    intro code ownResult machine value after ran
    cases fuel with
    | zero =>
        cases ran
    | succ fuel =>
        rw [evaluate, script_apply] at ran
        obtain ⟨ended, _, rfl⟩ := ensuring_eq_ok ran
        rfl
  error := by
    intro code machine value after nested pending ran
    cases fuel with
    | zero =>
        cases ran
    | succ fuel =>
        rw [evaluate, script_apply] at ran
        obtain ⟨ended, ranBody, rfl⟩ := ensuring_eq_ok ran
        have outermost : machine.interpreter.active.isEmpty = false := by simpa using nested
        rw [outermost, scriptBody_eq] at ranBody
        obtain ⟨last, between, ranCommands, settled⟩ := bind_eq_ok ranBody
        cases settled
        have pendingEntered : (entered code machine).interpreter.error ≠ none := pending
        have stillPending := runCommands_of_pending pendingEntered ranCommands
        exact stillPending

theorem runCommands_extends
    {run : Run σ}
    (nestable : Nestable run)
    (rounds : Nat)
    {code more tail : Text}
    (trivia : Source.isTrivia more = true)
    (noBackslash : code.getLast? ≠ some Byte.backslash)
    (lastCommand : Source.lastTail code = some tail)
    {ownResult outermost : Bool}
    {machine final : Machine σ}
    {value : Text}
    (ran : runCommands run rounds code ownResult outermost machine = .ok value final)
    (noError : final.interpreter.error = none) :
    ∃ longFinal,
      runCommands run rounds (code ++ Byte.newline :: more) ownResult outermost machine =
        .ok (trailingValue final.interpreter.currentFrame.stopping tail more value) longFinal ∧
      SameFrames final longFinal := by
  obtain ⟨within, between, world, ranText, rfl⟩ := runCommands_eq_ok ran
  have lines : (Reader.mk outermost false).acrossLines = false := rfl
  obtain ⟨longFinal, ranLonger, same⟩ :=
    runText_extends lines nestable rounds trivia noBackslash lastCommand ranText noError
  obtain ⟨longWorld, told⟩ := reportError_apply longFinal
  refine ⟨⟨longFinal.interpreter, longWorld⟩, ?_, same⟩
  rw [runCommands_of_within run rounds _ ownResult outermost within, bind_of_ok ranLonger,
    bind_of_ok told]
  rfl

/-- Whether the value of a script stands whatever follows its last command. -/
def endsEarly (ownResult : Bool) (frame : Frame) : Bool :=
  frame.stopping || (ownResult && frame.result.isSome)

theorem scriptBody_extends
    {run : Run σ}
    (nestable : Nestable run)
    (rounds : Nat)
    {code more tail : Text}
    (trivia : Source.isTrivia more = true)
    (noBackslash : code.getLast? ≠ some Byte.backslash)
    (lastCommand : Source.lastTail code = some tail)
    {ownResult outermost : Bool}
    {machine after : Machine σ}
    {value : Text}
    (ran : scriptBody run rounds code ownResult outermost machine = .ok value after)
    (noError : after.interpreter.error = none) :
    ∃ longAfter,
      scriptBody run rounds (code ++ Byte.newline :: more) ownResult outermost machine =
        .ok
          (trailingValue
            (endsEarly ownResult
              (final (runCommands run rounds code ownResult outermost)
                machine).interpreter.currentFrame)
            tail more value)
          longAfter := by
  rw [scriptBody_eq] at ran ⊢
  obtain ⟨last, between, ranCommands, settled⟩ := bind_eq_ok ran
  obtain ⟨ended, settledValue, sameError⟩ := settleValue_apply ownResult last between
  rw [settledValue] at settled
  cases settled
  obtain ⟨longBetween, ranLonger, same⟩ := runCommands_extends nestable rounds trivia noBackslash
    lastCommand ranCommands (sameError.symm.trans noError)
  obtain ⟨longAfter, settledLonger, _⟩ := settleValue_apply ownResult
    (trailingValue between.interpreter.currentFrame.stopping tail more last) longBetween
  refine ⟨longAfter, ?_⟩
  rw [bind_of_ok ranLonger, settledLonger, same.currentFrame_eq, final_of_ok ranCommands]
  cases ownResult with
  | false => simp [endsEarly]
  | true =>
      cases result : between.interpreter.currentFrame.result with
      | none => simp [endsEarly, result]
      | some provided => simp [endsEarly, trailingValue, result]

/-- Run code while a text is on record as the outermost one, if the code is outermost. -/
def evaluateUnder (fuel : Nat) (source code : Text) (ownResult : Bool) : Eval σ Text :=
  fun machine =>
    ensuring
      (scriptBody (evaluate fuel) fuel code ownResult machine.interpreter.active.isEmpty)
      (left machine) (entered source machine)

theorem evaluate_eq_under
    (fuel : Nat)
    (code : Text)
    (ownResult : Bool)
    (machine : Machine σ) :
    evaluate (fuel + 1) code ownResult machine =
      evaluateUnder fuel code code ownResult machine :=
  script_apply (evaluate fuel) fuel code ownResult machine

/-- Nested code is not on record, whatever is. -/
theorem evaluateUnder_of_nested
    (fuel : Nat)
    (source code : Text)
    (ownResult : Bool)
    {machine : Machine σ}
    (nested : machine.interpreter.active ≠ []) :
    evaluateUnder fuel source code ownResult machine =
      evaluate (fuel + 1) code ownResult machine := by
  have inside : machine.interpreter.active.isEmpty = false := by simpa using nested
  rw [evaluate_eq_under, evaluateUnder, evaluateUnder, entered, entered]
  simp only [inside, Bool.false_eq_true, if_false]

/-- The frame in which the commands of a script end while a text is on record. -/
def lastFrame (fuel : Nat) (source code : Text) (ownResult : Bool) (machine : Machine σ) : Frame :=
  (final
    (runCommands (evaluate fuel) fuel code ownResult machine.interpreter.active.isEmpty)
    (entered source machine)).interpreter.currentFrame

/--
A line break and trivia behind a script leave its value as it is where the script ends early or the
next round would start at the end of the text, and make it empty otherwise.  An outermost script
must not look at its own text, which is on record and has become longer.
-/
theorem value_with_trailing_trivia
    {fuel : Nat}
    {code more tail value : Text}
    {ownResult : Bool}
    {machine after : Machine σ}
    (trivia : Source.isTrivia more = true)
    (noBackslash : code.getLast? ≠ some Byte.backslash)
    (lastCommand : Source.lastTail code = some tail)
    (ran : evaluate (fuel + 1) code ownResult machine = .ok value after)
    (noError : after.interpreter.error = none)
    (unread : machine.interpreter.active = [] →
      ∃ other, evaluateUnder fuel (code ++ Byte.newline :: more) code ownResult machine =
          .ok value other ∧
        other.interpreter.error = none) :
    ∃ longAfter, evaluate (fuel + 1) (code ++ Byte.newline :: more) ownResult machine =
      .ok
        (trailingValue
          (endsEarly ownResult
            (lastFrame fuel (code ++ Byte.newline :: more) code ownResult machine))
          tail more value)
        longAfter := by
  have ranUnder : ∃ other,
      evaluateUnder fuel (code ++ Byte.newline :: more) code ownResult machine =
          .ok value other ∧
        other.interpreter.error = none := by
    by_cases outermost : machine.interpreter.active = []
    · exact unread outermost
    · exact ⟨after, (evaluateUnder_of_nested fuel _ code ownResult outermost).trans ran, noError⟩
  obtain ⟨other, ranOther, noErrorOther⟩ := ranUnder
  obtain ⟨ended, ranBody, rfl⟩ := ensuring_eq_ok ranOther
  obtain ⟨longEnded, ranLonger⟩ := scriptBody_extends (nestable_evaluate fuel) fuel trivia
    noBackslash lastCommand ranBody noErrorOther
  refine ⟨left machine longEnded, ?_⟩
  rw [evaluate_eq_under, evaluateUnder, ensuring, ranLonger]
  rfl

/-- The script `quote a`. -/
def quotation : Text := [0x71, 0x75, 0x6f, 0x74, 0x65, 0x20, 0x61]

/-- The text `# c` and a line break. -/
def remark : Text := [0x23, 0x20, 0x63, 0x0a]

/-- The value of an action that leaves no error pending. -/
def unfailed? (action : Eval σ Text) (machine : Machine σ) : Option Text :=
  match action machine with
  | .ok value after => if after.interpreter.error.isNone then some value else none
  | .error _ _ => none

theorem unfailed?_eq_some
    {action : Eval σ Text}
    {machine : Machine σ}
    {value : Text}
    (unfailed : unfailed? action machine = some value) :
    ∃ after, action machine = .ok value after ∧ after.interpreter.error = none := by
  rw [unfailed?] at unfailed
  split at unfailed
  case h_1 result after ran =>
    split at unfailed
    case isTrue noError =>
      cases unfailed
      exact ⟨after, ran, Option.isNone_iff_eq_none.mp noError⟩
    case isFalse =>
      cases unfailed
  case h_2 =>
    cases unfailed

/-- With a comment on a line of its own behind it, the code has no value any more. -/
theorem value_with_trailing_trivia_remark :
    ∃ after, evaluate 2 (quotation ++ Byte.newline :: remark) true shallow = .ok [] after := by
  obtain ⟨after, ran, noError⟩ := unfailed?_eq_some
    (show unfailed? (evaluate 2 quotation true) shallow = some [0x61] by decide +kernel)
  have unread := unfailed?_eq_some
    (show unfailed? (evaluateUnder 1 (quotation ++ Byte.newline :: remark) quotation true)
      shallow = some [0x61] by decide +kernel)
  have early : endsEarly true
      (lastFrame 1 (quotation ++ Byte.newline :: remark) quotation true shallow) = false := by
    decide +kernel
  have trivia : Source.isTrivia remark = true := by decide +kernel
  have lastCommand : Source.lastTail quotation = some [] := by decide +kernel
  have emptied : trailingValue false [] remark [0x61] = [] := by decide +kernel
  obtain ⟨longAfter, ranLonger⟩ := value_with_trailing_trivia trivia (by decide) lastCommand ran
    noError fun _ => unread
  rw [early, emptied] at ranLonger
  exact ⟨longAfter, ranLonger⟩

/-- A remark on a line of its own behind a command takes away its value. -/
theorem remark_empties_value :
    Source.isTrivia remark = true ∧
      quotation.getLast? ≠ some Byte.backslash ∧
      Source.lastTail quotation = some [] ∧
      unfailed? (evaluate 2 quotation true) shallow = some [0x61] ∧
      unfailed? (evaluate 2 (quotation ++ Byte.newline :: remark) true) shallow = some [] := by
  decide +kernel

end LittleScript.Eval
