import LittleScript.Proofs.ErrorPlaces
import LittleScript.Proofs.PlacedReading

namespace LittleScript.Eval

/-!
# Where errors come from

The error with which an evaluation of a host ends points at a flaw of its text, or at the start of
the command that was running when nested code or the command itself left the error.
-/

open Source (Cursor Flaw FlawAt GapRunsInto WordsRunInto)

variable {σ α : Type}

/-- The outermost evaluation of a text gets to a command: the cursor there, and the machine. -/
inductive Reaches (run : Run σ) (rounds : Nat) (code : Text) (machine : Machine σ) :
    Cursor → Machine σ → Prop where
  | first {cursor : Cursor} {there : Machine σ} :
      skipBlanks ⟨true, false⟩ (.start code) machine = .ok cursor there →
      cursor.rest ≠ [] →
      there.interpreter.error = none →
      Reaches run rounds code machine cursor there
  | next {cursor next : Cursor} {there after : Machine σ} {value : Text} :
      Reaches run rounds code machine cursor there →
      commandAt run rounds (code.length + 1) ⟨true, false⟩ cursor there =
        .ok (value, some next) after →
      next.rest ≠ [] →
      after.interpreter.error = none →
      Reaches run rounds code machine next after

/-- The reader of the outermost text runs into a flaw at an offset. -/
inductive Meets (run : Run σ) (rounds : Nat) (code : Text) (machine : Machine σ) (offset : Nat) :
    Flaw → Prop where
  | atStart :
      (Source.skipBlanks false (.start code)).openComment = some offset →
      Meets run rounds code machine offset .openComment
  | inWords {cursor : Cursor} {there : Machine σ} {flaw : Flaw} :
      Reaches run rounds code machine cursor there →
      WordsRunInto cursor offset flaw →
      Meets run rounds code machine offset flaw
  | behindWords {cursor after : Cursor} {there ready : Machine σ} {command : List Text}
      {flaw : Flaw} :
      Reaches run rounds code machine cursor there →
      Eval.words ⟨true, false⟩ run (code.length + 1) cursor (marked there cursor.offset) =
        .ok (some (command, after)) ready →
      GapRunsInto after offset flaw →
      Meets run rounds code machine offset flaw

/-- What has left an error that points at an offset of the outermost text. -/
inductive LeftBy (fuel : Nat) (code : Text) (machine : Machine σ) (error : ScriptError)
    (offset : Nat) : Prop where
  /-- The reader of the text, at a flaw. -/
  | flaw {flaw : Flaw} :
      error.reason = .malformed flaw →
      FlawAt code offset flaw →
      Meets (evaluate fuel) fuel code machine offset flaw →
      LeftBy fuel code machine error offset
  /-- Code that is nested in the words of the command there. -/
  | words {cursor : Cursor} {there : Machine σ} {call : Call σ} :
      Reaches (evaluate fuel) fuel code machine cursor there →
      cursor.offset = offset →
      cursor.OnWord →
      Makes (fun run => Eval.words ⟨true, false⟩ run (code.length + 1) cursor) (evaluate fuel)
        (marked there offset) call →
      Standing code offset call.machine →
      call.machine.interpreter.error = none →
      (call.after (evaluate fuel)).interpreter.error = some error →
      LeftBy fuel code machine error offset
  /-- The command there, once its words have been read. -/
  | call {cursor after : Cursor} {there ready : Machine σ} {command : List Text} :
      Reaches (evaluate fuel) fuel code machine cursor there →
      cursor.offset = offset →
      cursor.OnWord →
      Eval.words ⟨true, false⟩ (evaluate fuel) (code.length + 1) cursor (marked there offset) =
        .ok (some (command, after)) ready →
      Standing code offset ready →
      ready.interpreter.error = none →
      (final (dispatch (evaluate fuel) fuel command) ready).interpreter.error = some error →
      LeftBy fuel code machine error offset

/-- An action that leaves no error but at the command which the outermost evaluation is running. -/
def BlamesCommand (action : Eval σ α) : Prop :=
  ∀ (machine : Machine σ) (busy : machine.interpreter.active ≠ []), machine.interpreter.HostFree →
    machine.interpreter.error = none →
    ∀ error, (final action machine).interpreter.error = some error →
      ∃ reason, error =
        .locate reason machine.interpreter.source (machine.interpreter.active.getLast busy)

/-! ## Errors of the outermost evaluation -/

/-- An error that points at an offset, with what has left it. -/
def Explained (fuel : Nat) (code : Text) (machine : Machine σ) (error : ScriptError) : Prop :=
  ∃ offset : Nat, error.PointsAt code offset ∧ LeftBy fuel code machine error offset

variable {fuel : Nat} {code : Text} {machine : Machine σ} {error : ScriptError}

/-- A flaw explains the error that reports it. -/
theorem Explained.of_flaw
    {offset : Nat}
    {flaw : Flaw}
    (flawed : FlawAt code offset flaw)
    (meets : Meets (evaluate fuel) fuel code machine offset flaw)
    (isError : error = .locate (.malformed flaw) code offset) :
    Explained fuel code machine error := by
  obtain ⟨byte, rest, here, unbroken, notReturn⟩ := flawed.unbroken
  subst isError
  exact ⟨offset, ScriptError.locate_pointsAt _ here unbroken notReturn, .flaw rfl flawed meets⟩

/-- The error at a word points at it. -/
theorem pointsAt_word
    (reason : Reason)
    {cursor : Cursor}
    (isIn : cursor.IsIn code)
    (onWord : cursor.OnWord) :
    (ScriptError.locate reason code cursor.offset).PointsAt code cursor.offset := by
  obtain ⟨byte, rest, isRest, notSpace, -⟩ := onWord
  have here : code.drop cursor.offset = byte :: rest := isIn.symm.trans isRest
  refine ScriptError.locate_pointsAt reason here ?_ ?_
  · rw [Bool.eq_false_iff]
    intro isBreak
    rw [eq_of_beq isBreak] at notSpace
    cases notSpace
  · rw [Bool.eq_false_iff]
    intro isReturn
    rw [eq_of_beq isReturn] at notSpace
    cases notSpace

/-- An error at the outermost command of where a machine stands. -/
theorem Standing.pointsAt
    {there : Machine σ}
    {cursor : Cursor}
    (standing : Standing code cursor.offset there)
    (isIn : cursor.IsIn code)
    (onWord : cursor.OnWord)
    (placed : ∃ reason, error =
      .locate reason there.interpreter.source (there.interpreter.active.getLast standing.busy)) :
    error.PointsAt code cursor.offset := by
  obtain ⟨reason, rfl⟩ := placed
  have isStart : there.interpreter.active.getLast standing.busy = cursor.offset := by
    simp only [standing.active, List.getLast_singleton]
  rw [standing.source, isStart]
  exact pointsAt_word reason isIn onWord

/-- On a separator there are no words to read. -/
theorem words_of_separator
    (run : Run σ)
    (bound : Nat)
    {cursor : Cursor}
    (separator : cursor.isOn Byte.isSeparator = true)
    (machine : Machine σ) :
    words ⟨true, false⟩ run (bound + 1) cursor machine = .ok (some ([], cursor)) machine := by
  obtain ⟨left, offset⟩ := cursor
  cases left with
  | nil =>
      cases separator
  | cons byte rest =>
      have separates : Byte.isSeparator byte = true := separator
      obtain ⟨notHash, notBackslash⟩ := Source.isSeparator_facts separates
      have stays : Source.skipBlanks false ⟨byte :: rest, offset⟩ =
          ⟨⟨byte :: rest, offset⟩, none⟩ := by
        rw [Source.skipBlanks, Source.skipFrom_cons _ _ _ _ _ (.inl rfl)]
        simp [notHash, notBackslash, separates]
      have skipped : skipBlanks ⟨true, false⟩ ⟨byte :: rest, offset⟩ machine =
          .ok ⟨byte :: rest, offset⟩ machine := skipBlanks_apply stays
      rw [words, bind_of_ok skipped, wordsFrom]
      simp only [separator, Bool.not_false, Bool.true_and, Bool.or_true, Bool.true_or, if_true]
      rfl

/-! ## Commands of the outermost evaluation -/

/-- A command is marked where the machine stands. -/
theorem Standing.marked
    {start : Nat}
    {there : Machine σ}
    (standing : Standing code start there)
    (offset : Nat) :
    Standing code offset (marked there offset) := by
  refine ⟨standing.free, ?_, standing.source, standing.context⟩
  rw [Eval.marked, standing.active, List.tail_cons]

/-- A command that has been called comes back to where the machine stands. -/
theorem Standing.callWords
    {start : Nat}
    {ready called : Machine σ}
    {command : List Text}
    {value : Text}
    (standing : Standing code start ready)
    (noError : ready.interpreter.error = none)
    (ran : Eval.callWords (Eval.evaluate fuel) fuel command ready = .ok value called) :
    Standing code start called ∧ ∀ error, called.interpreter.error = some error →
      command ≠ [] ∧
        (final (dispatch (Eval.evaluate fuel) fuel command) ready).interpreter.error =
          some error := by
  rw [Eval.callWords] at ran
  split at ran
  case isTrue isEmpty =>
    cases ran
    refine ⟨standing, fun error failed => ?_⟩
    rw [noError] at failed
    cases failed
  case isFalse notEmpty =>
    obtain ⟨free, control, source, -⟩ :=
      dispatch_comesBack fuel command standing.free standing.busy noError
    rw [final_of_ok ran] at free control source ⊢
    refine ⟨⟨free, ?_, source.trans standing.source, ?_⟩, fun error failed => ?_⟩
    · exact (congrArg Control.active control).trans standing.active
    · exact (congrArg Control.context control).trans standing.context
    · exact ⟨by simpa using notEmpty, failed⟩

/-- A round that is not cancelled ends where its words do, or calls the command that they are. -/
theorem commandAt_of_uncancelled
    {run : Run σ}
    {rounds depth : Nat}
    {reader : Reader}
    {cursor : Cursor}
    {there ended : Machine σ}
    {round : Text × Option Cursor}
    (uncancelled : there.interpreter.context = .running → there.world.cancellation = none)
    (ran : commandAt run rounds depth reader cursor there = .ok round ended) :
    ∃ read ready, words reader run depth cursor (Eval.marked there cursor.offset) =
        .ok read ready ∧
      (round = ([], none) ∧ ended = ready ∨
        ∃ command after, read = some (command, after) ∧ ready.interpreter.error = none ∧
          callCommand run rounds reader command after ready = .ok round ended) := by
  have asked : cancellation (Eval.marked there cursor.offset) =
      .ok none (Eval.marked there cursor.offset) :=
    cancellation_of_uncancelled uncancelled
  have unfolded := ran
  rw [commandAt, bind_of_ok (markCommand_apply cursor.offset there), bind_of_ok asked] at unfolded
  obtain ⟨read, ready, ranWords, ranRest⟩ := bind_eq_ok unfolded
  refine ⟨read, ready, ranWords, ?_⟩
  cases read with
  | none =>
      cases ranRest
      exact .inl ⟨rfl, rfl⟩
  | some found =>
      obtain ⟨command, after⟩ := found
      cases pending : ready.interpreter.error with
      | some error =>
          simp only [hasError_bind_apply, pending, Option.isSome_some, if_true] at ranRest
          cases ranRest
          exact .inl ⟨rfl, rfl⟩
      | none =>
          refine .inr ⟨command, after, rfl, rfl, ?_⟩
          rw [← commandAt_of_words rounds uncancelled ranWords pending]
          exact ran

/-- An action without nested code raises an error only at a flaw. -/
theorem Pends.explained
    {start : Nat}
    {found : Nat → Flaw → Prop}
    {action : Eval σ α}
    {there after : Machine σ}
    {value : α}
    (pends : Pends fuel code start found (fun _ => action) there after)
    (flawed : ∀ offset flaw, found offset flaw →
      FlawAt code offset flaw ∧ Meets (evaluate fuel) fuel code machine offset flaw)
    (ran : action there = .ok value after)
    (failed : after.interpreter.error = some error) :
    there.interpreter.error = some error ∨ Explained fuel code machine error := by
  cases pends with
  | kept same =>
      exact .inl (same.symm.trans failed)
  | raised _ isRaised raised =>
      cases isRaised.symm.trans failed
      refine .inr ?_
      cases raised with
      | flaw runsInto isError =>
          obtain ⟨isFlaw, meets⟩ := flawed _ _ runsInto
          exact .of_flaw isFlaw meets isError
      | nested _ _ _ awaits =>
          obtain ⟨stopped, crashed⟩ := awaits
          cases ran.symm.trans crashed

/-- The outermost evaluation gets to commands without an error. -/
theorem Reaches.going
    {run : Run σ}
    {rounds : Nat}
    {cursor : Cursor}
    {there : Machine σ}
    (reaches : Reaches run rounds code machine cursor there) :
    cursor.rest ≠ [] ∧ there.interpreter.error = none := by
  cases reaches with
  | first _ going noError => exact ⟨going, noError⟩
  | next _ _ going noError => exact ⟨going, noError⟩

/-- An error that is pending behind the words of a command is explained. -/
theorem Reaches.wordsExplained
    {cursor : Cursor}
    {there ready : Machine σ}
    {read : Option (List Text × Cursor)}
    (reaches : Reaches (evaluate fuel) fuel code machine cursor there)
    (isIn : cursor.IsIn code)
    (onWord : cursor.OnWord)
    (ran : Eval.words ⟨true, false⟩ (evaluate fuel) (code.length + 1) cursor
      (marked there cursor.offset) = .ok read ready)
    (pends : Pends fuel code cursor.offset (WordsRunInto cursor)
      (fun run => Eval.words ⟨true, false⟩ run (code.length + 1) cursor)
      (marked there cursor.offset) ready)
    (failed : ready.interpreter.error = some error) :
    Explained fuel code machine error := by
  cases pends with
  | kept same =>
      have unfailed : ready.interpreter.error = none := same.trans reaches.going.2
      cases unfailed.symm.trans failed
  | raised _ isRaised raised =>
      cases isRaised.symm.trans failed
      cases raised with
      | flaw runsInto isError =>
          exact .of_flaw (runsInto.flawAt isIn) (.inWords reaches runsInto) isError
      | @nested call standing noError left awaits =>
          have placed := evaluate_places fuel call.code call.ownResult standing.free
            standing.busy noError left
          exact ⟨cursor.offset, standing.pointsAt isIn onWord placed,
            .words reaches rfl onWord (awaits.makes ran) standing noError left⟩

/-- An error that is pending behind a command that has been called is explained. -/
theorem Reaches.callExplained
    {cursor after : Cursor}
    {there ready called : Machine σ}
    {command : List Text}
    {value : Text}
    (reaches : Reaches (evaluate fuel) fuel code machine cursor there)
    (isIn : cursor.IsIn code)
    (onWord : command ≠ [] → cursor.OnWord)
    (read : Eval.words ⟨true, false⟩ (evaluate fuel) (code.length + 1) cursor
      (marked there cursor.offset) = .ok (some (command, after)) ready)
    (standing : Standing code cursor.offset ready)
    (noError : ready.interpreter.error = none)
    (ran : callWords (evaluate fuel) fuel command ready = .ok value called)
    (failed : called.interpreter.error = some error) :
    Explained fuel code machine error := by
  obtain ⟨named, left⟩ := (standing.callWords noError ran).2 error failed
  have placed :=
    (dispatch_comesBack fuel command standing.free standing.busy noError).2.2.2 error left
  exact ⟨cursor.offset, standing.pointsAt isIn (onWord named) placed,
    .call reaches rfl (onWord named) read standing noError left⟩

/--
A round explains the error with which it ends, and stands where the next one can start.  A separator
is no place for an error, but there are no words to read or to call there either.
-/
theorem Reaches.round
    {start : Nat}
    {cursor : Cursor}
    {there ended : Machine σ}
    {round : Text × Option Cursor}
    (reaches : Reaches (evaluate fuel) fuel code machine cursor there)
    (standing : Standing code start there)
    (isIn : cursor.IsIn code)
    (settled : cursor.Settled)
    (ran : commandAt (evaluate fuel) fuel (code.length + 1) ⟨true, false⟩ cursor there =
      .ok round ended) :
    (∀ error, ended.interpreter.error = some error → Explained fuel code machine error) ∧
      ∀ next, round.2 = some next →
        Standing code cursor.offset ended ∧ next.IsIn code ∧ next.Settled := by
  obtain ⟨going, noErrorThere⟩ := reaches.going
  have uncancelled : there.interpreter.context = .running → there.world.cancellation = none := by
    intro running
    cases standing.context.symm.trans running
  obtain ⟨read, ready, ranWords, ends⟩ := commandAt_of_uncancelled uncancelled ran
  have short : cursor.rest.length < code.length + 1 := by
    rw [isIn, List.length_drop]
    exact Nat.lt_succ_of_le (Nat.sub_le _ _)
  obtain ⟨standingReady, pends, leads⟩ :=
    Accounts.words (standing.marked cursor.offset) short isIn read ready ranWords
  obtain ⟨readExplained, onWord⟩ :
      (∀ error, ready.interpreter.error = some error → Explained fuel code machine error) ∧
        ∀ command after, read = some (command, after) → command ≠ [] → cursor.OnWord := by
    cases separator : cursor.isOn Byte.isSeparator with
    | true =>
        have nothing := words_of_separator (evaluate fuel) code.length separator
          (marked there cursor.offset)
        cases nothing.symm.trans ranWords
        refine ⟨fun error failed => ?_, ?_⟩
        · cases noErrorThere.symm.trans failed
        · rintro _ _ ⟨⟩ named
          exact absurd rfl named
    | false =>
        have notDone : cursor.isDone = false := by simpa [Cursor.isDone] using going
        have onWord := settled.onWord notDone separator
        exact ⟨fun error => reaches.wordsExplained isIn onWord ranWords pends,
          fun _ _ _ _ => onWord⟩
  rcases ends with ⟨rfl, rfl⟩ | ⟨command, after, rfl, noError, called⟩
  · exact ⟨readExplained, by simp⟩
  · obtain ⟨value, between, ranCall, ranRest⟩ := bind_eq_ok called
    have callExplained : ∀ error, between.interpreter.error = some error →
        Explained fuel code machine error := fun _ =>
      reaches.callExplained isIn (onWord command after rfl) ranWords standingReady noError ranCall
    rw [isStopping_bind_apply] at ranRest
    split at ranRest
    case isTrue =>
      cases ranRest
      exact ⟨callExplained, by simp⟩
    case isFalse =>
      obtain ⟨next, settledAt, ranNext, yields⟩ := bind_eq_ok ranRest
      cases yields
      have afterIn := (leads command after rfl).1
      have standingCalled := (standingReady.callWords noError ranCall).1
      obtain ⟨standingNext, pendsNext, nextIn, nextSettled⟩ :=
        Accounts.nextCommand standingCalled afterIn next ended ranNext
      refine ⟨fun error failed => ?_, ?_⟩
      · have flawed := fun offset flaw (runsInto : GapRunsInto after offset flaw) =>
          And.intro (runsInto.flawAt afterIn) (Meets.behindWords reaches ranWords runsInto)
        rcases pendsNext.explained flawed ranNext failed with before | explained
        · exact callExplained error before
        · exact explained
      · rintro _ ⟨⟩
        exact ⟨standingNext, nextIn, nextSettled⟩

/-- Commands explain the error with which they end. -/
theorem commands_explained
    (bound : Nat) :
    ∀ {start : Nat} {cursor : Cursor} {last value : Text} {there ended : Machine σ},
      Standing code start there →
      cursor.IsIn code →
      cursor.Settled →
      (∀ error, there.interpreter.error = some error → Explained fuel code machine error) →
      (cursor.rest ≠ [] → there.interpreter.error = none →
        Reaches (evaluate fuel) fuel code machine cursor there) →
      commands (evaluate fuel) fuel ⟨true, false⟩ (code.length + 1) bound cursor last there =
        .ok value ended →
      ∀ error, ended.interpreter.error = some error → Explained fuel code machine error := by
  induction bound with
  | zero =>
      intro start cursor last value there ended standing isIn settled explained reaches ran
      cases ran
      exact explained
  | succ bound inductionHypothesis =>
      intro start cursor last value there ended standing isIn settled explained reaches ran
      by_cases noError : there.interpreter.error = none
      · by_cases going : cursor.rest = []
        · obtain ⟨_, offset⟩ := cursor
          cases going
          cases (commands_end ..).symm.trans ran
          exact explained
        · rw [commands_of_going _ _ _ _ _ going _ noError] at ran
          obtain ⟨round, between, ranRound, ranRest⟩ := bind_eq_ok ran
          have reached := reaches going noError
          obtain ⟨roundExplained, further⟩ := reached.round standing isIn settled ranRound
          obtain ⟨result, next⟩ := round
          cases next with
          | none =>
              cases ranRest
              exact roundExplained
          | some next =>
              obtain ⟨standingNext, nextIn, nextSettled⟩ := further next rfl
              exact inductionHypothesis standingNext nextIn nextSettled roundExplained
                (fun going noError => .next reached ranRound going noError) ranRest
      · rw [commands_of_pending _ _ _ _ _ _ _ noError] at ran
        cases ran
        exact explained

/-! ## Evaluations of a host -/

/-- The text of an outermost evaluation explains the error with which it ends. -/
theorem runText_explained
    {value : Text}
    {ended : Machine σ}
    (standing : Standing code 0 machine)
    (noError : machine.interpreter.error = none)
    (ran : runText (evaluate fuel) fuel ⟨true, false⟩ code machine = .ok value ended)
    (failed : ended.interpreter.error = some error) :
    Explained fuel code machine error := by
  obtain ⟨first, there, skipped, ranCommands⟩ := bind_eq_ok ran
  have starts : (Cursor.start code).IsIn code := rfl
  have accounts : Accounts fuel code 0
      (fun offset flaw =>
        FlawAt code offset flaw ∧ Meets (evaluate fuel) fuel code machine offset flaw)
      (fun _ place => place = (Source.skipBlanks false (.start code)).cursor ∧ place.IsIn code)
      (fun _ => skipBlanks ⟨true, false⟩ (.start code)) machine :=
    .skipBlanks standing starts fun _ opened =>
      ⟨(GapRunsInto.blanks opened).flawAt starts, .atStart opened⟩
  obtain ⟨standingThere, pends, isPlace, firstIn⟩ := accounts first there skipped
  refine commands_explained (code.length + 1) standingThere firstIn ?_ ?_ ?_ ranCommands error
    failed
  · rw [isPlace]
    exact Source.skipFrom_settled .plain _ _
  · intro error failed
    rcases pends.explained (fun _ _ flawed => flawed) skipped failed with before | explained
    · cases noError.symm.trans before
    · exact explained
  · exact fun going noError => .first skipped going noError

/-- Where an evaluation of a host starts to read its text. -/
def hostStart (code : Text) (machine : Machine σ) : Machine σ :=
  prepared true true (entered code (outermostCall .background code machine).machine)

/-- An evaluation of a host starts at the command with which its text starts. -/
theorem hostStart_standing
    (code : Text)
    {machine : Machine σ}
    (free : machine.interpreter.HostFree)
    (idle : machine.interpreter.active = []) :
    Standing code 0 (hostStart code machine) := by
  have opened : (outermostCall .background code machine).machine.interpreter.active = [] := idle
  refine ⟨prepared_hostFree code true true free, ?_, ?_, rfl⟩
  · exact congrArg (0 :: ·) opened
  · exact if_pos (List.isEmpty_iff.mpr opened)

/-- An evaluation of a host explains the error with which it ends. -/
theorem evaluate_explained
    {value : Text}
    {ended : Machine σ}
    (free : machine.interpreter.HostFree)
    (idle : machine.interpreter.active = [])
    (ran : evaluate (fuel + 1) code true (outermostCall .background code machine).machine =
      .ok value ended)
    (failed : ended.interpreter.error = some error) :
    Explained fuel code (hostStart code machine) error := by
  have isIdle :
      (outermostCall .background code machine).machine.interpreter.active.isEmpty = true :=
    List.isEmpty_iff.mpr idle
  rw [evaluate, script_apply, isIdle] at ran
  obtain ⟨left, ranBody, rfl⟩ := ensuring_eq_ok ran
  generalize isStart : entered code (outermostCall .background code machine).machine = start
    at ranBody
  have starts : prepared true true start = hostStart code machine := by rw [← isStart, hostStart]
  by_cases within : start.interpreter.depth ≤ start.interpreter.limits.evaluations
  · rw [scriptBody_of_within _ _ _ _ _ within, starts] at ranBody
    obtain ⟨last, read, ranText, ranRest⟩ := bind_eq_ok ranBody
    obtain ⟨world, told⟩ := reportError_apply read
    rw [bind_of_ok told] at ranRest
    obtain ⟨settled, isSettled, sameError⟩ := settleValue_apply true last ⟨read.interpreter, world⟩
    cases isSettled.symm.trans ranRest
    exact runText_explained (hostStart_standing code free idle) rfl ranText
      (sameError.symm.trans failed)
  · obtain ⟨stopped, refused⟩ := guardDepth_of_beyond (Nat.lt_of_not_le within)
    rw [scriptBody, bind_of_error refused] at ranBody
    cases ranBody

/--
Nested code and commands, whatever they are, leave an error only at the command which the outermost
evaluation is running, and the error that an evaluation returns to its host points at the command
from which it comes in this way, or at a flaw in the text itself.
-/
theorem error_points_at_its_origin
    (fuel : Nat)
    (code : Text)
    (machine : Machine σ)
    (free : machine.interpreter.HostFree)
    (idle : machine.interpreter.active = []) :
    (∀ remaining inner ownResult, BlamesCommand (σ := σ) (evaluate remaining inner ownResult)) ∧
      (∀ remaining command,
        BlamesCommand (σ := σ) (dispatch (evaluate remaining) remaining command)) ∧
      ∀ value error,
        (machine.perform (evaluateIn (evaluate (fuel + 1)) .background code)).1 =
            .finished ⟨value, some (.script error)⟩ →
          ∃ offset, error.PointsAt code offset ∧
            LeftBy fuel code (hostStart code machine) error offset := by
  refine ⟨?_, ?_, ?_⟩
  · intro remaining inner ownResult machine busy free noError error failed
    exact evaluate_places remaining inner ownResult free busy noError failed
  · intro remaining command machine busy free noError error failed
    exact (dispatch_comesBack remaining command free busy noError).2.2.2 error failed
  · intro value error failed
    rw [perform_evaluateIn _ _ _ idle] at failed
    cases ran : evaluate (fuel + 1) code true (outermostCall .background code machine).machine with
    | ok result ended =>
        rw [ran] at failed
        simp only [Outcome.finished.injEq, Evaluated.mk.injEq] at failed
        have pending : ended.interpreter.error = some error := by
          simpa using failed.2
        exact evaluate_explained free idle ran pending
    | error stop ended =>
        rw [ran] at failed
        cases stop <;> simp at failed

/-- A text whose second line starts with a separator, before nested code with an unknown command. -/
def failingInside : Text :=
  Text.ofString "\n;[x]"

/-- The script error with which an evaluation ended. -/
def scriptError? : Outcome Evaluated → Option ScriptError
  | .finished ⟨_, some (.script error)⟩ => some error
  | _ => none

theorem eq_of_scriptError?
    {outcome : Outcome Evaluated}
    (isError : scriptError? outcome = some error) :
    ∃ value, outcome = .finished ⟨value, some (.script error)⟩ := by
  rw [scriptError?.eq_def] at isError
  split at isError
  · cases isError
    exact ⟨_, rfl⟩
  · cases isError

/-- An unknown command in brackets is reported where the brackets stand, on the second line. -/
theorem error_points_at_its_origin_inside :
    ∃ error : ScriptError, error.reason = .unknownCommand [0x78] ∧ error.place = ⟨2, 2⟩ ∧
      ∃ offset, error.PointsAt failingInside offset ∧
        LeftBy 2 failingInside (hostStart failingInside (⟨{}, { host := () }⟩ : Machine Unit)) error
          offset := by
  have isError :
      scriptError? ((⟨{}, { host := () }⟩ : Machine Unit).perform
          (evaluateIn (evaluate 3) .background failingInside)).1 =
        some (.locate (.unknownCommand [0x78]) failingInside 2) := by
    decide +kernel
  obtain ⟨value, failed⟩ := eq_of_scriptError? isError
  have free : ({} : Interpreter Unit).HostFree := fun _ member => nomatch member
  exact ⟨_, rfl, by decide +kernel,
    (error_points_at_its_origin 2 failingInside _ free rfl).2.2 _ _ failed⟩

end LittleScript.Eval
