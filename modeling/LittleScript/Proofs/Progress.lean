import LittleScript.Proofs.HostSubstitution

namespace LittleScript

/-!
# Progress through a text

Every round of a reader takes something from the text, or the reader gives up: a part that stays
where it is is no part of a word, a word takes at least one byte, and so does a command on its way
to the next one.  So the bounds on these rounds, which exceed the length of the text, are never used
up, and larger ones change nothing.
-/

open Source (Cursor)

variable {σ : Type}

/-- A reading that stays where it is, or that leaves less of the text. -/
def Moves (cursor after : Cursor) : Prop :=
  after = cursor ∨ after.rest.length < cursor.rest.length

theorem Moves.refl
    (cursor : Cursor) :
    Moves cursor cursor :=
  .inl rfl

theorem Moves.trans
    {cursor between after : Cursor}
    (first : Moves cursor between)
    (second : Moves between after) :
    Moves cursor after := by
  rcases first with rfl | shorter
  · exact second
  · rcases second with rfl | still
    · exact .inr shorter
    · exact .inr (Nat.lt_trans still shorter)

theorem Moves.length_le
    {cursor after : Cursor}
    (moves : Moves cursor after) :
    after.rest.length ≤ cursor.rest.length := by
  rcases moves with rfl | shorter
  · exact Nat.le_refl _
  · exact Nat.le_of_lt shorter

/-- A reading that is at another offset has taken something. -/
theorem Moves.shorter
    {cursor after : Cursor}
    (moves : Moves cursor after)
    (moved : (after.offset == cursor.offset) = false) :
    after.rest.length < cursor.rest.length := by
  rcases moves with rfl | shorter
  · simp at moved
  · exact shorter

/-- What is behind a byte or two is shorter. -/
theorem Moves.behind
    {first rest : Text}
    {offset start : Nat}
    {after : Cursor}
    (moves : Moves ⟨rest, start⟩ after)
    (shorter : rest.length < first.length) :
    Moves ⟨first, offset⟩ after :=
  .inr (Nat.lt_of_le_of_lt moves.length_le shorter)

namespace Eval

/-! ## Blanks and parts -/

/-- Skipping blanks moves from any state of a blank stretch. -/
theorem skipFrom_moves
    (acrossLines : Bool)
    (state : Source.BlankState)
    (text : Text)
    (offset : Nat) :
    Moves ⟨text, offset⟩ (Source.skipFrom acrossLines state text offset).cursor := by
  fun_induction Source.skipFrom acrossLines state text offset
  all_goals first
    | exact .refl _
    | exact Moves.behind ‹_› (Nat.lt_succ_self _)
    | exact Moves.behind ‹_› (Nat.lt_succ_of_lt (Nat.lt_succ_self _))
    | exact .inr (Nat.zero_lt_succ _)

theorem skipBlanks_moves
    {reader : Reader}
    {cursor place : Cursor}
    {machine ended : Machine σ}
    (ran : skipBlanks reader cursor machine = .ok place ended) :
    Moves cursor place := by
  rw [(skipBlanks_ran ran).1]
  exact skipFrom_moves reader.acrossLines .plain cursor.rest cursor.offset

/-- A part moves: a bare run may be empty, every other part is behind its first byte. -/
theorem partAt_moves
    {reader : Reader}
    {run : Run σ}
    {bound : Nat}
    {byte : UInt8}
    {rest : Text}
    {offset : Nat}
    {machine ended : Machine σ}
    {read : Text × Cursor}
    (ran : partAt reader run bound byte rest offset machine = .ok read ended) :
    Moves ⟨byte :: rest, offset⟩ read.2 := by
  have behind : ∀ {reading : Eval σ (Text × Cursor)}, Leaves rest reading →
      reading machine = .ok read ended → Moves ⟨byte :: rest, offset⟩ read.2 :=
    fun leaves ran => .inr (Nat.lt_succ_of_le (leaves _ _ _ ran).length_le)
  rw [partAt] at ran
  split at ran
  · exact behind (.dollarPart (.part reader run bound _)) ran
  · split at ran
    · exact behind (.bracePart reader _) ran
    · split at ran
      · exact behind (.bracketPart reader run _) ran
      · split at ran
        · exact behind (.quotedPart reader run (.part reader run bound) byte offset _ _ []) ran
        · cases ran
          cases bare : isBare byte with
          | false =>
              left
              simp [bare]
          | true =>
              right
              have shorter := (List.dropWhile_suffix isBare (l := rest)).length_le
              simpa [bare] using Nat.lt_succ_of_le shorter

theorem part_moves
    {reader : Reader}
    {run : Run σ}
    {bound : Nat}
    {cursor : Cursor}
    {machine ended : Machine σ}
    {read : Text × Cursor}
    (ran : part reader run bound cursor machine = .ok read ended) :
    Moves cursor read.2 := by
  cases bound with
  | zero =>
      cases ran
      exact .refl _
  | succ bound =>
      rw [part_succ] at ran
      obtain ⟨place, between, skipped, ranPart⟩ := bind_eq_ok ran
      have moves := skipBlanks_moves skipped
      obtain ⟨left, offset⟩ := place
      cases left with
      | nil =>
          cases ranPart
          exact moves
      | cons byte rest =>
          exact moves.trans (partAt_moves ranPart)

/-! ## Words and commands -/

/-- A word takes at least one byte. -/
theorem word_shortens
    (reader : Reader)
    (run : Run σ)
    (depth bound : Nat) :
    ∀ (cursor : Cursor) (done : Text) {machine ended : Machine σ} {read : Text × Cursor},
      word reader run depth bound cursor done machine = .ok (some read) ended →
      read.2.rest.length < cursor.rest.length := by
  induction bound with
  | zero =>
      intro cursor done machine ended read ran
      cases ran
  | succ bound inductionHypothesis =>
      intro cursor done machine ended read ran
      rw [word] at ran
      obtain ⟨⟨value, after⟩, between, ranPart, ranRest⟩ := bind_eq_ok ran
      have moves : Moves cursor after := part_moves ranPart
      simp only at ranRest
      split at ranRest
      · obtain ⟨_, _, _, yields⟩ := bind_eq_ok ranRest
        cases yields
      · have shorter := moves.shorter (Bool.eq_false_iff.mpr ‹_›)
        rw [hasError_bind_apply] at ranRest
        split at ranRest
        · cases ranRest
          exact shorter
        · exact Nat.lt_trans (inductionHypothesis after _ ranRest) shorter

/-- Words end where they are, or go on in a shorter text behind one word and its blanks. -/
theorem wordsFrom_succ
    {reader : Reader}
    {run : Run σ}
    {depth bound : Nat}
    {cursor : Cursor}
    {done : List Text}
    {machine ended : Machine σ}
    {read : List Text × Cursor}
    (ran : wordsFrom reader run depth (bound + 1) cursor done machine = .ok (some read) ended) :
    (read.2 = cursor ∧ (cursor.isDone = true ∨ cursor.isOn Byte.isSeparator = true ∨
        ended.interpreter.error.isSome = true)) ∨
      ∃ value place between, place.rest.length < cursor.rest.length ∧
        wordsFrom reader run depth bound place (value :: done) between = .ok (some read) ended := by
  rw [wordsFrom] at ran
  simp only [hasError_bind_apply] at ran
  split at ran
  case isTrue atEnd =>
    left
    cases ran
    simp only [Bool.or_eq_true, Bool.and_eq_true] at atEnd
    rcases atEnd with (isDone | ⟨-, separator⟩) | pending
    · exact ⟨rfl, .inl isDone⟩
    · exact ⟨rfl, .inr (.inl separator)⟩
    · exact ⟨rfl, .inr (.inr pending)⟩
  case isFalse =>
    right
    obtain ⟨result, between, ranWord, ranRest⟩ := bind_eq_ok ran
    cases result with
    | none =>
        cases ranRest
    | some found =>
        obtain ⟨place, behind, skipped, ranWords⟩ := bind_eq_ok ranRest
        have shorter := word_shortens reader run depth depth cursor [] ranWord
        have fewer := Nat.lt_of_le_of_lt (skipBlanks_moves skipped).length_le shorter
        exact ⟨found.1, place, behind, fewer, ranWords⟩

/-- Words leave no more of a text than there was. -/
theorem wordsFrom_length_le
    (reader : Reader)
    (run : Run σ)
    (depth bound : Nat) :
    ∀ (cursor : Cursor) (done : List Text) {machine ended : Machine σ} {read : List Text × Cursor},
      wordsFrom reader run depth bound cursor done machine = .ok (some read) ended →
      read.2.rest.length ≤ cursor.rest.length := by
  induction bound with
  | zero =>
      intro cursor done machine ended read ran
      cases ran
      exact Nat.le_refl _
  | succ bound inductionHypothesis =>
      intro cursor done machine ended read ran
      rcases wordsFrom_succ ran with ⟨stays, -⟩ | ⟨value, place, between, shorter, ranWords⟩
      · exact Nat.le_of_eq (congrArg (fun after => after.rest.length) stays)
      · exact Nat.le_trans (inductionHypothesis place _ ranWords) (Nat.le_of_lt shorter)

/-- Words that take nothing are at the end of a command, or an error is pending. -/
theorem wordsFrom_cases
    {reader : Reader}
    {run : Run σ}
    {depth bound : Nat}
    {cursor : Cursor}
    {machine ended : Machine σ}
    {read : List Text × Cursor}
    (ran : wordsFrom reader run depth (bound + 1) cursor [] machine = .ok (some read) ended) :
    read.2.rest.length < cursor.rest.length ∨
      read.2 = cursor ∧ (cursor.isDone = true ∨ cursor.isOn Byte.isSeparator = true ∨
        ended.interpreter.error.isSome = true) := by
  rcases wordsFrom_succ ran with stays | ⟨value, place, between, shorter, ranWords⟩
  · exact .inr stays
  · have rest := wordsFrom_length_le reader run depth bound place _ ranWords
    exact .inl (Nat.lt_of_le_of_lt rest shorter)

/-- Moving on to the next command takes the separator at the cursor, and goes back in no case. -/
theorem nextCommand_moves
    {reader : Reader}
    {cursor next : Cursor}
    {machine ended : Machine σ}
    (ran : nextCommand reader cursor machine = .ok next ended) :
    next.rest.length ≤ cursor.rest.length ∧
      (cursor.isOn Byte.isSeparator = true → next.rest.length < cursor.rest.length) := by
  rw [nextCommand] at ran
  obtain ⟨place, between, skipped, ranSecond⟩ := bind_eq_ok ran
  have toPlace := skipBlanks_moves skipped
  have toNext := (skipBlanks_moves ranSecond).length_le
  have dropped := (List.dropWhile_suffix Byte.isSeparator (l := place.rest)).length_le
  refine ⟨Nat.le_trans toNext (Nat.le_trans dropped toPlace.length_le), fun separator => ?_⟩
  rcases toPlace with rfl | shorter
  · obtain ⟨left, offset⟩ := place
    cases left with
    | nil =>
        cases separator
    | cons byte rest =>
        have fewer := Source.length_dropWhile_lt (List.cons_ne_nil byte rest) separator
        exact Nat.lt_of_le_of_lt toNext fewer
  · exact Nat.lt_of_le_of_lt (Nat.le_trans toNext dropped) shorter

/-- Before the next command its words have been read without an error. -/
theorem commandAt_reads
    {run : Run σ}
    {rounds depth : Nat}
    {reader : Reader}
    {cursor next : Cursor}
    {machine ended : Machine σ}
    {value : Text}
    (ran : commandAt run rounds depth reader cursor machine = .ok (value, some next) ended) :
    ∃ (command : List Text) (after : Cursor) (start ready called : Machine σ),
      words reader run depth cursor start = .ok (some (command, after)) ready ∧
        ready.interpreter.error.isSome = false ∧
        nextCommand reader after called = .ok next ended := by
  rw [commandAt, bind_of_ok (markCommand_apply cursor.offset machine)] at ran
  obtain ⟨cause, start, _, ranCommand⟩ := bind_eq_ok ran
  cases cause with
  | some cause =>
      obtain ⟨_, _, _, yields⟩ := bind_eq_ok ranCommand
      cases yields
  | none =>
      obtain ⟨result, ready, ranWords, ranCall⟩ := bind_eq_ok ranCommand
      cases result with
      | none =>
          cases ranCall
      | some read =>
          obtain ⟨command, after⟩ := read
          simp only [hasError_bind_apply] at ranCall
          split at ranCall
          case isTrue =>
            cases ranCall
          case isFalse noError =>
            have called : callCommand run rounds reader command after ready =
                .ok (value, some next) ended := by
              rw [← ranCall, callCommand, callWords]
              cases command.isEmpty <;> rfl
            rw [callCommand] at called
            obtain ⟨result, settled, _, ranRest⟩ := bind_eq_ok called
            simp only [isStopping_bind_apply] at ranRest
            split at ranRest
            · cases ranRest
            · obtain ⟨found, left, ranNext, yields⟩ := bind_eq_ok ranRest
              cases yields
              exact ⟨command, after, start, ready, settled, ranWords,
                Bool.eq_false_iff.mpr noError, ranNext⟩

/-- A command with another one behind it takes at least one byte. -/
theorem commandAt_shortens
    {run : Run σ}
    {rounds depth : Nat}
    {reader : Reader}
    {cursor next : Cursor}
    {machine ended : Machine σ}
    {value : Text}
    (going : cursor.rest ≠ [])
    (ran : commandAt run rounds (depth + 1) reader cursor machine = .ok (value, some next) ended) :
    next.rest.length < cursor.rest.length := by
  obtain ⟨command, after, start, ready, called, ranWords, noError, ranNext⟩ := commandAt_reads ran
  obtain ⟨toNext, pastSeparator⟩ := nextCommand_moves ranNext
  rw [words] at ranWords
  obtain ⟨place, _, skipped, ranFrom⟩ := bind_eq_ok ranWords
  have toPlace := (skipBlanks_moves skipped).length_le
  rcases wordsFrom_cases ranFrom with shorter | ⟨stays, isDone | separator | pending⟩
  · exact Nat.lt_of_le_of_lt toNext (Nat.lt_of_lt_of_le shorter toPlace)
  · cases stays
    have nothing : after.rest = [] := List.isEmpty_iff.mp isDone
    rw [nothing] at toNext
    exact Nat.lt_of_le_of_lt toNext (List.length_pos_iff.mpr going)
  · cases stays
    exact Nat.lt_of_lt_of_le (pastSeparator separator) toPlace
  · exact absurd pending (Bool.eq_false_iff.mp noError)

/-! ## Bounds -/

theorem unlessFailed_congr
    {text : Text}
    {first : Eval σ (Text × Cursor)}
    (leaves : Leaves text first)
    {ended : Text → Text}
    {next other : Text → Cursor → Eval σ (Text × Cursor)}
    (same : ∀ value after, after.rest <:+ text → next value after = other value after) :
    unlessFailed first ended next = unlessFailed first ended other := by
  funext machine
  rw [unlessFailed, unlessFailed]
  refine bind_congr_of_ok fun read between ran => ?_
  simp only [same read.1 read.2 (leaves _ _ _ ran)]

/-- Two bounds that exceed the length of a text. -/
structure Exceed (text : Text) (bound otherBound : Nat) : Prop where
  enough : text.length < bound
  otherEnough : text.length < otherBound

namespace Exceed

variable {text shortened : Text} {bound otherBound : Nat}

theorem other_succ
    (exceed : Exceed text bound otherBound) :
    ∃ fewer, otherBound = fewer + 1 :=
  Nat.exists_eq_add_one_of_ne_zero (Nat.ne_zero_of_lt exceed.otherEnough)

theorem of_le
    (exceed : Exceed text bound otherBound)
    (shorter : shortened.length ≤ text.length) :
    Exceed shortened bound otherBound :=
  ⟨Nat.lt_of_le_of_lt shorter exceed.enough, Nat.lt_of_le_of_lt shorter exceed.otherEnough⟩

/-- A round that shortens the text may use up one of each bound. -/
theorem later
    (exceed : Exceed text (bound + 1) (otherBound + 1))
    (shorter : shortened.length < text.length) :
    Exceed shortened bound otherBound where
  enough := Nat.lt_of_lt_of_le shorter (Nat.le_of_lt_succ exceed.enough)
  otherEnough := Nat.lt_of_lt_of_le shorter (Nat.le_of_lt_succ exceed.otherEnough)

theorem succ
    (exceed : Exceed text bound otherBound) :
    Exceed text (bound + 1) (otherBound + 1) :=
  ⟨Nat.lt_succ_of_lt exceed.enough, Nat.lt_succ_of_lt exceed.otherEnough⟩

end Exceed

/-- Bounds on quoted parts that exceed the text do not matter, if those on names do not. -/
theorem quotedPart_bound
    (reader : Reader)
    (run : Run σ)
    {name other : Cursor → Eval σ (Text × Cursor)}
    (leaves : ∀ cursor, Leaves cursor.rest (other cursor))
    {size : Nat}
    (same : ∀ cursor, cursor.rest.length < size → name cursor = other cursor)
    (quote : UInt8)
    (start : Nat)
    {bound otherBound : Nat} :
    ∀ (cursor : Cursor) (done : Text), cursor.rest.length ≤ size →
      Exceed cursor.rest bound otherBound →
      quotedPart reader run name quote start bound cursor done =
        quotedPart reader run other quote start otherBound cursor done := by
  induction bound generalizing otherBound with
  | zero =>
      intro cursor done _ exceed
      exact absurd exceed.enough (Nat.not_lt_zero _)
  | succ bound inductionHypothesis =>
      intro cursor done fits exceed
      obtain ⟨otherBound, rfl⟩ := exceed.other_succ
      obtain ⟨text, offset⟩ := cursor
      have stops := Source.quotedRun_suffix quote text offset done
      cases stopped : quotedRun quote text offset done with
      | mk literal stop =>
          rw [stopped] at stops
          obtain ⟨left, stop⟩ := stop
          cases left with
          | nil =>
              rw [quotedPart, quotedPart]
              simp only [stopped]
          | cons byte rest =>
              have shorter : rest.length < text.length := stops.length_le
              have goesOn : ∀ (after : Cursor) (grown : Text), after.rest <:+ rest →
                  quotedPart reader run name quote start bound after grown =
                    quotedPart reader run other quote start otherBound after grown := by
                intro after grown suffix
                have less := Nat.lt_of_le_of_lt suffix.length_le shorter
                exact inductionHypothesis after grown (Nat.le_trans (Nat.le_of_lt less) fits)
                  (exceed.later less)
              rw [quotedPart_of_run reader run name quote start bound stopped,
                quotedPart_of_run reader run other quote start otherBound stopped,
                same ⟨rest, stop + 1⟩ (Nat.lt_of_lt_of_le shorter fits)]
              split
              · exact unlessFailed_congr (.dollarPart (leaves ⟨rest, stop + 1⟩))
                  fun value after suffix => goesOn after _ suffix
              · split
                · exact unlessFailed_congr (.bracketPart reader run ⟨rest, stop + 1⟩)
                    fun value after suffix => goesOn after _ suffix
                · rfl

/--
Bounds on parts that exceed the text do not matter.  A name in quoted text is behind a dollar in it,
hence shorter.
-/
theorem part_bound
    (reader : Reader)
    (run : Run σ)
    {bound otherBound : Nat} :
    ∀ cursor : Cursor, Exceed cursor.rest bound otherBound →
      part reader run bound cursor = part reader run otherBound cursor := by
  induction bound generalizing otherBound with
  | zero =>
      intro cursor exceed
      exact absurd exceed.enough (Nat.not_lt_zero _)
  | succ bound inductionHypothesis =>
      intro cursor exceed
      obtain ⟨otherBound, rfl⟩ := exceed.other_succ
      funext machine
      rw [part_succ, part_succ]
      refine bind_congr_of_ok fun place between skipped => ?_
      have toPlace := (skipBlanks_moves skipped).length_le
      obtain ⟨left, offset⟩ := place
      cases left with
      | nil =>
          rfl
      | cons byte rest =>
          have behind : Exceed rest bound otherBound := exceed.later toPlace
          have quoted := quotedPart_bound reader run (.part reader run otherBound)
            (fun inner shorter => inductionHypothesis inner (behind.of_le (Nat.le_of_lt shorter)))
            byte offset ⟨rest, offset + 1⟩ [] (Nat.le_refl _) behind.succ
          simp only [partAt, inductionHypothesis ⟨rest, offset + 1⟩ behind, quoted]

/-- Bounds on the rounds of a word that exceed the text do not matter. -/
theorem word_bound
    (reader : Reader)
    (run : Run σ)
    {depth otherDepth bound otherBound : Nat} :
    ∀ (cursor : Cursor) (done : Text), Exceed cursor.rest depth otherDepth →
      Exceed cursor.rest bound otherBound →
      word reader run depth bound cursor done =
        word reader run otherDepth otherBound cursor done := by
  induction bound generalizing otherBound with
  | zero =>
      intro cursor done _ exceed
      exact absurd exceed.enough (Nat.not_lt_zero _)
  | succ bound inductionHypothesis =>
      intro cursor done deep exceed
      obtain ⟨otherBound, rfl⟩ := exceed.other_succ
      funext machine
      rw [word, word, part_bound reader run cursor deep]
      refine bind_congr_of_ok fun read between ranPart => ?_
      obtain ⟨value, after⟩ := read
      have moves : Moves cursor after := part_moves ranPart
      cases moved : after.offset == cursor.offset with
      | true =>
          simp only [moved, if_true]
      | false =>
          have shorter := moves.shorter moved
          simp only [moved]
          rw [inductionHypothesis after _ (deep.of_le (Nat.le_of_lt shorter))
            (exceed.later shorter)]

/-- Bounds on the words of a command that exceed the text do not matter. -/
theorem wordsFrom_bound
    (reader : Reader)
    (run : Run σ)
    {depth otherDepth bound otherBound : Nat} :
    ∀ (cursor : Cursor) (done : List Text), Exceed cursor.rest depth otherDepth →
      Exceed cursor.rest bound otherBound →
      wordsFrom reader run depth bound cursor done =
        wordsFrom reader run otherDepth otherBound cursor done := by
  induction bound generalizing otherBound with
  | zero =>
      intro cursor done _ exceed
      exact absurd exceed.enough (Nat.not_lt_zero _)
  | succ bound inductionHypothesis =>
      intro cursor done deep exceed
      obtain ⟨otherBound, rfl⟩ := exceed.other_succ
      funext machine
      rw [wordsFrom, wordsFrom, word_bound reader run cursor [] deep deep]
      simp only [hasError_bind_apply]
      split
      · rfl
      · refine bind_congr_of_ok fun read between ranWord => ?_
        cases read with
        | none =>
            rfl
        | some read =>
            have shorter := word_shortens reader run otherDepth otherDepth cursor [] ranWord
            refine bind_congr_of_ok fun place behind skipped => ?_
            have less := Nat.lt_of_le_of_lt (skipBlanks_moves skipped).length_le shorter
            rw [inductionHypothesis place _ (deep.of_le (Nat.le_of_lt less)) (exceed.later less)]

theorem words_bound
    (reader : Reader)
    (run : Run σ)
    {bound otherBound : Nat}
    (cursor : Cursor)
    (exceed : Exceed cursor.rest bound otherBound) :
    words reader run bound cursor = words reader run otherBound cursor := by
  funext machine
  rw [words, words]
  refine bind_congr_of_ok fun place between skipped => ?_
  have exceedThere := exceed.of_le (skipBlanks_moves skipped).length_le
  rw [wordsFrom_bound reader run place [] exceedThere exceedThere]

/-- Bounds on the commands of a script that exceed its text do not matter. -/
theorem commands_bound
    (run : Run σ)
    (rounds : Nat)
    (reader : Reader)
    {depth otherDepth bound otherBound : Nat} :
    ∀ (cursor : Cursor) (last : Text), Exceed cursor.rest depth otherDepth →
      Exceed cursor.rest bound otherBound →
      commands run rounds reader depth bound cursor last =
        commands run rounds reader otherDepth otherBound cursor last := by
  induction bound generalizing otherBound with
  | zero =>
      intro cursor last _ exceed
      exact absurd exceed.enough (Nat.not_lt_zero _)
  | succ bound inductionHypothesis =>
      intro cursor last deep exceed
      obtain ⟨otherBound, rfl⟩ := exceed.other_succ
      obtain ⟨otherDepth, rfl⟩ := deep.other_succ
      have sameRound : commandAt run rounds depth reader cursor =
          commandAt run rounds (otherDepth + 1) reader cursor := by
        rw [commandAt, commandAt, words_bound reader run cursor deep]
      funext machine
      rw [commands, commands, sameRound]
      simp only [hasError_bind_apply]
      split
      case isTrue =>
        rfl
      case isFalse goesOn =>
        have going : cursor.rest ≠ [] := by
          intro nothing
          simp [Cursor.isDone, nothing] at goesOn
        refine bind_congr_of_ok fun round between ranRound => ?_
        obtain ⟨value, next⟩ := round
        cases next with
        | none =>
            rfl
        | some next =>
            have shorter := commandAt_shortens going ranRound
            exact congrFun (inductionHypothesis next value (deep.of_le (Nat.le_of_lt shorter))
              (exceed.later shorter)) between

/--
Every round takes something from the text: each word, and each command that another one follows.
Bounds that exceed the text change neither the words that are read nor the commands that are run.
-/
structure TakesText (σ : Type) : Prop where
  word : ∀ (reader : Reader) (run : Run σ) (depth bound : Nat) (cursor after : Cursor)
    (done value : Text) (machine ended : Machine σ),
    Eval.word reader run depth bound cursor done machine = .ok (some (value, after)) ended →
    after.rest.length < cursor.rest.length
  command : ∀ (run : Run σ) (rounds depth : Nat) (reader : Reader) (cursor next : Cursor)
    (value : Text) (machine ended : Machine σ),
    cursor.rest ≠ [] →
    commandAt run rounds (depth + 1) reader cursor machine = .ok (value, some next) ended →
    next.rest.length < cursor.rest.length
  words : ∀ (reader : Reader) (run : Run σ) (bound : Nat) (cursor : Cursor),
    cursor.rest.length < bound →
    Eval.words reader run bound cursor = Eval.words reader run (cursor.rest.length + 1) cursor
  commands : ∀ (run : Run σ) (rounds : Nat) (reader : Reader) (depth bound : Nat)
    (cursor : Cursor) (last : Text),
    cursor.rest.length < depth → cursor.rest.length < bound →
    Eval.commands run rounds reader depth bound cursor last =
      Eval.commands run rounds reader (cursor.rest.length + 1) (cursor.rest.length + 1) cursor last

theorem takesText :
    TakesText σ where
  word reader run depth bound cursor _ done _ _ _ ran :=
    word_shortens reader run depth bound cursor done ran
  command _ _ _ _ _ _ _ _ _ going ran := commandAt_shortens going ran
  words reader run _ cursor enough := words_bound reader run cursor ⟨enough, Nat.lt_succ_self _⟩
  commands run rounds reader _ _ cursor last deep enough :=
    commands_bound run rounds reader cursor last ⟨deep, Nat.lt_succ_self _⟩
      ⟨enough, Nat.lt_succ_self _⟩

end Eval

end LittleScript
