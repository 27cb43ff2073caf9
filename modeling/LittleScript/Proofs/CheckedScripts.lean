import LittleScript.Proofs.ControlState
import LittleScript.Proofs.OutlineReading

namespace LittleScript.Eval

/-!
# Checked scripts and what is reported when they are run

With commands that do nothing, an evaluation of a plain script meets only flaws of the script.  It
follows the outline of the script to its first flaw, as the checker does: both accept the same
scripts, and report the same flaw of the others.
-/

open Source (Cursor OpenQuote Outline isPlain nestsWithin outline)

variable {σ : Type}

/-! ## Commands that do nothing -/

/-- Call every command as a native one that does nothing and has an empty value. -/
def doNothing : Dispatcher σ :=
  fun _ _ _ => settle (.value [])

/-- Commands that have a value and leave a machine quiet. -/
def Calm (setting : Setting) (call : List Text → Eval σ Text) : Prop :=
  ∀ command (machine : Machine σ), Quiet setting machine →
    ∃ value after, call command machine = .ok value after ∧ Quiet setting after

theorem calm_doNothing
    (setting : Setting)
    (run : Run σ)
    (rounds : Nat) :
    Calm setting (doNothing run rounds) :=
  fun _ _ quiet => ⟨_, _, rfl, { quiet with }⟩

/-! ## Commands follow the outline -/

section Commands

variable {call : List Text → Eval σ Text} {run : Run σ} {setting : Setting} {cursor : Cursor}
  (reader : Reader)

/-- Moving on to the next command leads further in a plain text, past the separators at least. -/
theorem nextCommand_of_plain
    (lines : reader.acrossLines = false)
    (plain : isPlain cursor.rest = true) :
    ∃ place, (∀ machine : Machine σ, nextCommand reader cursor machine = .ok place machine) ∧
      Advances none cursor none place ∧
      (cursor.rest ≠ [] → Source.atBreak cursor.rest = true →
        place.rest.length < cursor.rest.length) := by
  obtain ⟨first, skips, skipped, -⟩ := skipBlanks_of_plain (σ := σ) reader lines plain
  have separated := Advances.dropWhile @Source.isOrdinary_of_isSeparator first
  obtain ⟨place, skipsMore, skippedMore, -⟩ := skipBlanks_of_plain (σ := σ) reader lines
    (Source.isPlain_of_suffix (skipped.trans separated).suffix plain)
  refine ⟨place, fun machine => ?_, (skipped.trans separated).trans skippedMore, ?_⟩
  · rw [nextCommand, bind_of_ok (skips machine)]
    exact skipsMore machine
  · intro notEmpty isAtBreak
    have shorter := skippedMore.suffix.length_le
    by_cases unmoved : first.offset = cursor.offset
    · cases skipped.eq_of_offset unmoved
      exact Nat.lt_of_le_of_lt shorter (Source.length_dropWhile_lt notEmpty isAtBreak)
    · have sized := skipped.sized
      have atMost := skipped.suffix.length_le
      have dropped := separated.suffix.length_le
      omega

/-- Marking a command leaves a machine quiet. -/
theorem Quiet.marked
    {machine : Machine σ}
    (quiet : Quiet setting machine)
    (busy : 0 < setting.depth)
    (offset : Nat) :
    Quiet setting (marked machine offset) :=
  { quiet with
    atDepth := by
      have atDepth := quiet.atDepth
      simp only [Interpreter.depth, Eval.marked, List.length_cons, List.length_tail] at atDepth ⊢
      omega }

/-- A round that goes on further in its text. -/
def GoesOn (cursor : Cursor) (round : Text × Option Cursor) : Prop :=
  ∃ value next, round = (value, some next) ∧ Advances none cursor none next ∧
    next.rest.length < cursor.rest.length

/-- A round leads further in a plain text, or reports the first flaw. -/
theorem commandAtVia_follows
    (calm : Calm setting call)
    (lines : reader.acrossLines = false)
    {bound : Nat}
    (small : cursor.rest.length < bound)
    (busy : 0 < setting.depth)
    (readable : Readable run setting none cursor)
    (notEmpty : cursor.rest ≠ []) :
    Follows reader.outermost setting (cursor.ahead none) (GoesOn cursor)
      (commandAtVia call run bound reader cursor) := by
  intro machine quiet
  have quietMarked := quiet.marked busy cursor.offset
  have asked : cancellation (marked machine cursor.offset) =
      .ok none (marked machine cursor.offset) :=
    cancellation_of_uncancelled fun isRunning => by
      rw [quietMarked.uncancelled] at isRunning
      cases isRunning
  rw [commandAtVia, bind_of_ok (markCommand_apply cursor.offset machine), bind_of_ok asked]
  refine (words_follows reader lines small readable).bind ?_ ?_ _ quietMarked
  · rintro read ⟨items, after, rfl, advances, progress⟩
    obtain ⟨place, moves, further, separated⟩ := nextCommand_of_plain (σ := σ) reader lines
      (readable.of_advances advances).plain
    have shorter : place.rest.length < cursor.rest.length := by
      have atMost := advances.suffix.length_le
      have notLonger := further.suffix.length_le
      cases isAtBreak : Source.atBreak cursor.rest with
      | false =>
          exact Nat.lt_of_le_of_lt notLonger (progress isAtBreak)
      | true =>
          by_cases unmoved : after.offset = cursor.offset
          · cases advances.eq_of_offset unmoved
            exact separated notEmpty isAtBreak
          · have sized := advances.sized
            omega
    have moving : ∀ value, Follows reader.outermost setting (cursor.ahead none) (GoesOn cursor)
        (nextCommand (σ := σ) reader after >>= fun next => pure (value, some next)) :=
      fun value => .after moves (.pure ⟨value, place, rfl, advances.trans further, shorter⟩)
    have goesOn : ∀ value, Follows reader.outermost setting (cursor.ahead none) (GoesOn cursor)
        (isStopping >>= fun stopping =>
          if stopping then pure (value, none)
          else nextCommand (σ := σ) reader after >>= fun next => pure (value, some next)) := by
      intro value machine quiet
      rw [isStopping_bind_apply, quiet.going]
      exact moving value machine quiet
    refine .unlessError ?_
    simp only [Bool.false_eq_true, if_false]
    split
    · exact goesOn []
    · intro machine quiet
      obtain ⟨value, called, ran, quietCalled⟩ := calm items machine quiet
      rw [bind_of_ok ran]
      exact goesOn value called quietCalled
  · intro read
    cases read with
    | none =>
        exact .pure _
    | some read =>
        exact .onError (.pure _)

theorem PassesError.commandsVia
    (depth bound : Nat)
    (cursor : Cursor)
    (last : Text) :
    PassesError (commandsVia call run reader depth bound cursor last) := by
  cases bound with
  | zero =>
      exact .pure last
  | succ bound =>
      rw [Eval.commandsVia]
      refine .onError ?_
      simp only [Bool.or_true, if_true]
      exact .pure last

/-- Commands end where the text does, or report the first flaw. -/
theorem commandsVia_follows
    (calm : Calm setting call)
    (lines : reader.acrossLines = false)
    (busy : 0 < setting.depth)
    (depth bound : Nat) :
    ∀ (cursor : Cursor) (last : Text), cursor.rest.length < depth → cursor.rest.length < bound →
      Readable run setting none cursor →
      Follows reader.outermost setting (cursor.ahead none)
        (fun _ => (cursor.ahead none).flaw = none)
        (commandsVia call run reader depth bound cursor last) := by
  induction bound with
  | zero =>
      intro cursor last shallow small
      omega
  | succ bound inductionHypothesis =>
      intro cursor last shallow small readable
      rw [commandsVia]
      refine .unlessError ?_
      split
      case isTrue atEnd =>
        have nothing : cursor.rest = [] := by
          simpa [Cursor.isDone] using atEnd
        exact .pure (by simp [Cursor.ahead, nothing])
      case isFalse goesOn =>
        have notEmpty : cursor.rest ≠ [] := by
          simpa [Cursor.isDone] using goesOn
        refine (commandAtVia_follows reader calm lines shallow busy readable notEmpty).bind ?_ ?_
        · rintro round ⟨value, next, rfl, advances, shorter⟩
          have running := inductionHypothesis next value (by omega) (by omega)
            (readable.of_advances advances)
          rw [← advances.flaw]
          exact .of_advances advances running
        · rintro ⟨value, next⟩
          cases next with
          | none =>
              exact .pure value
          | some next =>
              exact .commandsVia reader depth bound next value

end Commands

/-! ## Scripts follow their outline -/

section Scripts

variable {call : List Text → Eval σ Text} {run : Run σ} {setting : Setting}

/-- Where a change of the current frame ends its stopping, the frame goes on. -/
theorem going_updateCurrent
    (interpreter : Interpreter σ)
    {update : Frame → Frame}
    (goesOn : ∀ frame, (update frame).stopping = false) :
    (interpreter.updateCurrent update).currentFrame.stopping = false := by
  simp only [Interpreter.currentFrame, Interpreter.updateCurrent, Interpreter.updateFrame,
    Interpreter.frame, Array.getD_eq_getD_getElem?, Array.getElem?_modify, if_true]
  cases interpreter.frames[interpreter.current]? with
  | none =>
      rfl
  | some frame =>
      exact goesOn frame

theorem PassesError.reportError :
    PassesError (Eval.reportError : Eval σ Unit) := by
  intro machine error pending
  obtain ⟨world, told⟩ := reportError_apply machine
  exact ⟨(), _, told, pending⟩

theorem PassesError.settleValue
    (ownResult : Bool)
    (value : Text) :
    PassesError (Eval.settleValue ownResult value : Eval σ Text) := by
  intro machine error pending
  obtain ⟨after, settled, sameError⟩ := settleValue_apply ownResult value machine
  exact ⟨_, after, settled, sameError.trans pending⟩

/-- A script whose commands end without a flaw ends quietly. -/
theorem settleValue_follows
    {outermost : Bool}
    {ahead : Outline}
    {fact : Prop}
    (holds : fact)
    (ownResult : Bool)
    (value : Text) :
    Follows (σ := σ) outermost setting ahead (fun _ => fact)
      (reportError >>= fun _ => settleValue ownResult value) := by
  intro machine quiet
  obtain ⟨world, told⟩ := reportError_apply machine
  rw [bind_of_ok told]
  have quietTold : Quiet setting ⟨machine.interpreter, world⟩ := { quiet with }
  cases ownResult with
  | false =>
      exact ⟨value, _, rfl, .inl ⟨quietTold, holds⟩⟩
  | true =>
      have taken : settleValue true value ⟨machine.interpreter, world⟩ =
          (takeResult >>= fun result => pure (result.getD value)) ⟨machine.interpreter, world⟩ :=
        rfl
      rw [taken, takeResult]
      simp only [bind_assoc, interpreter_bind_apply]
      cases machine.interpreter.currentFrame.result with
      | none =>
          exact ⟨_, _, rfl, .inl ⟨quietTold, holds⟩⟩
      | some result =>
          exact ⟨_, _, rfl, .inl
            ⟨{ quietTold with going := going_updateCurrent _ fun _ => rfl }, holds⟩⟩

/-- What a script does once it is prepared: read and run its text and settle its value. -/
def performTextVia (call : List Text → Eval σ Text) (run : Run σ) (code : Text)
    (ownResult outermost : Bool) : Eval σ Text := do
  let reader : Reader := ⟨outermost, false⟩
  let first ← skipBlanks reader (.start code)
  let value ← commandsVia call run reader (code.length + 1) (code.length + 1) first []
  reportError
  settleValue ownResult value

/-- The text of a script is read to its end, or its first flaw is reported. -/
theorem performTextVia_follows
    (calm : Calm setting call)
    (busy : 0 < setting.depth)
    {code : Text}
    (readable : Readable run setting none (.start code))
    (ownResult outermost : Bool) :
    Follows outermost setting (outline code) (fun _ => (outline code).flaw = none)
      (performTextVia call run code ownResult outermost) := by
  let reader : Reader := ⟨outermost, false⟩
  obtain ⟨first, skips, skipped, -⟩ := skipBlanks_of_plain (σ := σ) reader rfl readable.plain
  have shorter : first.rest.length < code.length + 1 :=
    Nat.lt_succ_of_le skipped.suffix.length_le
  have running := commandsVia_follows reader calm rfl busy (code.length + 1) (code.length + 1)
    first [] shorter shorter (readable.of_advances skipped)
  have flaw : (first.ahead none).flaw = (outline code).flaw := skipped.flaw
  refine .after skips ((Follows.of_advances skipped running).bind ?_ ?_)
  · intro value flawless
    exact settleValue_follows (flaw ▸ flawless) ownResult value
  · exact fun value => .bind .reportError fun _ => .settleValue ownResult value

/-- Within the limit a script reads its text once it is prepared. -/
theorem scriptBodyVia_of_within
    (call : List Text → Eval σ Text)
    (run : Run σ)
    (code : Text)
    (ownResult outermost : Bool)
    {machine : Machine σ}
    (within : machine.interpreter.depth ≤ machine.interpreter.limits.evaluations) :
    scriptBodyVia call run code ownResult outermost machine =
      performTextVia call run code ownResult outermost (prepared ownResult outermost machine) := by
  rw [scriptBodyVia, bind_of_ok (guardDepth_of_within within),
    bind_of_ok (prepare_apply ownResult outermost machine)]
  rfl

/-- The setting of what is nested. -/
def Setting.nested (setting : Setting) : Setting :=
  { setting with depth := setting.depth + 1 }

/-- A nested script follows its outline. -/
theorem scriptVia_follows
    (calm : Calm setting.nested call)
    (busy : 0 < setting.depth)
    (fits : setting.depth < setting.limit)
    {code : Text}
    (readable : Readable run setting.nested none (.start code)) :
    Follows false setting (outline code) (fun _ => (outline code).flaw = none)
      (scriptVia call run code false) := by
  intro machine quiet
  have isNested : machine.interpreter.active.isEmpty = false := by
    have atDepth := quiet.atDepth
    cases shape : machine.interpreter.active with
    | nil =>
        simp only [Interpreter.depth, shape, List.length_nil] at atDepth
        omega
    | cons _ _ =>
        rfl
  have quietInside : Quiet setting.nested (entered code machine) :=
    { quiet with
      atDepth := congrArg Nat.succ quiet.atDepth
      inSource := by
        simp only [entered, isNested, Bool.false_eq_true, if_false]
        exact quiet.inSource }
  have within : (entered code machine).interpreter.depth ≤
      (entered code machine).interpreter.limits.evaluations := by
    rw [quietInside.atDepth, quietInside.inLimit]
    exact fits
  obtain ⟨value, after, ran, ended⟩ := performTextVia_follows calm (Nat.succ_pos _) readable false
    false (entered code machine) quietInside
  refine ⟨value, left machine after, ?_, ?_⟩
  · rw [scriptVia, isNested, ensuring, scriptBodyVia_of_within call run code false false within]
    simp only [prepared, Bool.false_eq_true, if_false, ran]
  · rcases ended with ⟨quietAfter, flawless⟩ | reports
    · exact .inl ⟨{ quietAfter with atDepth := quiet.atDepth }, flawless⟩
    · exact .inr reports

/-- A script can be read where what it nests follows its outline. -/
theorem readable_start
    {nesting : Nat}
    {code : Text}
    (plain : isPlain code = true)
    (nests : nestsWithin nesting code = true)
    (follows : ∀ inside less, nesting = less + 1 → isPlain inside = true →
      nestsWithin less inside = true →
      Follows false setting (outline inside) (fun _ => (outline inside).flaw = none)
        (run inside false)) :
    Readable run setting none (.start code) where
  plain := plain
  nested stretch member := by
    obtain ⟨less, isMore, nestsLess⟩ := Source.nests_inside nests member
    have plainInside :=
      (Source.outlined none 0 code).isPlain_of_stretch plain member
    exact follows stretch.inside less isMore plainInside nestsLess

end Scripts

/-- Nested code follows its outline, as long as there is room for what it nests. -/
theorem evaluateVia_follows
    (fuel : Nat) :
    ∀ (setting : Setting) (nesting : Nat) (code : Text), isPlain code = true →
      nestsWithin nesting code = true → 0 < setting.depth →
      setting.depth + nesting < setting.limit → nesting < fuel →
      Follows (σ := σ) false setting (outline code) (fun _ => (outline code).flaw = none)
        (evaluateVia doNothing fuel code false) := by
  induction fuel with
  | zero =>
      intro setting nesting code plain nests busy fits enough
      omega
  | succ fuel inductionHypothesis =>
      intro setting nesting code plain nests busy fits enough
      refine scriptVia_follows (calm_doNothing _ _ _) busy (by omega) ?_
      refine readable_start plain nests fun inside less isMore plainInside nestsLess => ?_
      subst isMore
      refine inductionHypothesis setting.nested less inside plainInside nestsLess
        (Nat.succ_pos _) ?_ (by omega)
      simp only [Setting.nested]
      omega

/-- How an evaluation with commands that do nothing ends. -/
theorem evaluateVia_doNothing_ends
    (machine : Machine σ)
    (idle : machine.interpreter.active = [])
    (background : machine.interpreter.context = .background)
    {code : Text}
    (plain : isPlain code = true)
    {nesting fuel : Nat}
    (nests : nestsWithin nesting code = true)
    (fits : nesting < machine.interpreter.limits.evaluations)
    (enough : nesting < fuel) :
    ∃ value after, evaluateVia doNothing fuel code true machine = .ok value after ∧
      ((after.interpreter.error = none ∧ (outline code).flaw = none) ∨
        ∃ error, after.interpreter.error = some error ∧
          Reports true code (outline code) error) := by
  obtain ⟨less, rfl⟩ : ∃ less, fuel = less + 1 := ⟨fuel - 1, by omega⟩
  let setting : Setting := ⟨1, machine.interpreter.limits.evaluations, code⟩
  have isOutermost : machine.interpreter.active.isEmpty = true := by
    rw [idle, List.isEmpty_nil]
  have atDepth : (entered code machine).interpreter.depth = 1 := by
    simp [entered, Interpreter.depth, idle]
  have quiet : Quiet setting (prepared true true (entered code machine)) :=
    { noError := rfl
      uncancelled := background
      going := going_updateCurrent _ fun _ => rfl
      atDepth := atDepth
      inLimit := rfl
      inSource := by
        simp only [prepared, if_true, entered, isOutermost]
        rfl }
  have readable : Readable (evaluateVia (σ := σ) doNothing less) setting none (.start code) := by
    refine readable_start plain nests fun inside deeper isMore plainInside nestsLess => ?_
    subst isMore
    refine evaluateVia_follows less setting deeper inside plainInside nestsLess Nat.one_pos ?_
      (by omega)
    simp only [setting]
    omega
  have within : (entered code machine).interpreter.depth ≤
      (entered code machine).interpreter.limits.evaluations := by
    rw [atDepth]
    exact Nat.lt_of_le_of_lt (Nat.zero_le nesting) fits
  obtain ⟨value, after, ran, ended⟩ := performTextVia_follows
    (calm_doNothing setting (evaluateVia doNothing less) less) Nat.one_pos readable true true
    (prepared true true (entered code machine)) quiet
  refine ⟨value, left machine after, ?_, ?_⟩
  · rw [evaluateVia, scriptVia, isOutermost, ensuring,
      scriptBodyVia_of_within _ _ code true true within, ran]
  · rcases ended with ⟨quietAfter, flawless⟩ | reports
    · exact .inl ⟨quietAfter.noError, flawless⟩
    · exact .inr reports

/-! ## The checker and the evaluator -/

/--
The checker and the evaluator agree on plain scripts.  With commands that do nothing, a script
without hashes and dollars whose brackets are not nested beyond the limit is evaluated without an
error exactly when the checker accepts it.  The error of any other script has the flaw that the
checker finds as its reason; where that flaw is not inside brackets, it is the error at its offset.
-/
theorem evaluation_fails_as_checked
    (machine : Machine σ)
    (idle : machine.interpreter.active = [])
    (code : Text)
    (plain : isPlain code = true)
    {nesting fuel : Nat}
    (nests : nestsWithin nesting code = true)
    (fits : nesting < machine.interpreter.limits.evaluations)
    (enough : nesting < fuel) :
    ∃ value failure,
      (machine.perform (evaluateIn (evaluateVia doNothing fuel) .background code)).1 =
          .finished ⟨value, failure⟩ ∧
        (Source.check code = none ↔ failure = none) ∧
        ∀ found, Source.check code = some found →
          ∃ error, failure = some (.script error) ∧ error.reason = .malformed found.flaw ∧
            (Source.isInBrackets code found.offset = false →
              error = .locate (.malformed found.flaw) code found.offset) := by
  obtain ⟨value, after, ran, ended⟩ := evaluateVia_doNothing_ends
    (outermostCall .background code machine).machine idle rfl plain nests fits enough
  refine ⟨value, after.interpreter.error.map .script, ?_, ?_⟩
  · rw [perform_evaluateIn _ .background code idle, ran]
  · rw [Source.check_eq_flaw plain]
    rcases ended with ⟨noError, flawless⟩ | ⟨error, pending, found, isFound, reason, placed⟩
    · simp [noError, flawless]
    · rw [pending, isFound]
      refine ⟨by simp, ?_⟩
      intro checked same
      cases same
      refine ⟨error, rfl, reason, fun outside => placed rfl fun stretch member => ?_⟩
      exact Bool.eq_false_iff.mpr (List.any_eq_false.mp outside stretch member)

/-- The code `"a[b]" {[} ]`, of which only the last byte is a flaw. -/
def strayBehindParts : Text :=
  [Byte.doubleQuote, 0x61, Byte.openBracket, 0x62, Byte.closeBracket, Byte.doubleQuote, Byte.space,
    Byte.openBrace, Byte.openBracket, Byte.closeBrace, Byte.space, Byte.closeBracket]

/-- Evaluation fails where the bracket stands that nothing opened, and not at the parts before it. -/
theorem evaluation_fails_as_checked_stray :
    ∃ value,
      ((Machine.start () {} {}).perform
          (evaluateIn (evaluateVia doNothing 2) .background strayBehindParts)).1 =
        .finished ⟨value, some (.script
          (.locate (.malformed (.strayCloser Byte.closeBracket)) strayBehindParts 11))⟩ := by
  obtain ⟨value, failure, ended, -, reported⟩ := evaluation_fails_as_checked
    (Machine.start () {} {}) rfl strayBehindParts (by decide)
    (show nestsWithin 1 strayBehindParts = true by decide)
    (show 1 < 1000 by decide) (show 1 < 2 by decide)
  obtain ⟨error, rfl, -, placed⟩ := reported ⟨.strayCloser Byte.closeBracket, 11⟩ (by decide)
  have isPlaced : error =
      .locate (.malformed (.strayCloser Byte.closeBracket)) strayBehindParts 11 :=
    placed (by decide)
  rw [isPlaced] at ended
  exact ⟨value, ended⟩

end LittleScript.Eval
