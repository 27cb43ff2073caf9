import LittleScript.Proofs.Dispatching
import LittleScript.Proofs.LongerCommands
import LittleScript.Proofs.Outline

namespace LittleScript

/-!
# Readers follow the outline

A reader of words on a plain text either goes on, and then what is ahead of it has the same first
flaw as before, or it reports that flaw.  What is in brackets is read by an evaluation of its own,
which reports the flaw that is there.
-/

open Source (Bracketed Cursor Flaw OpenQuote Outline SyntaxError isOrdinary isPlain outline
  outlineFrom)

variable {σ α β : Type}

/-! ## What is ahead of a cursor -/

/-- The outline of what is ahead of a cursor, between words or in a quote. -/
def Source.Cursor.ahead (cursor : Cursor) (quote : Option OpenQuote) : Outline :=
  outlineFrom quote cursor.offset cursor.rest

/--
One place of a text leads to another: it is further in the same text, has the same first flaw
ahead, and no other stretches in brackets.
-/
structure Advances (quote : Option OpenQuote) (cursor : Cursor) (later : Option OpenQuote)
    (after : Cursor) : Prop where
  suffix : after.rest <:+ cursor.rest
  sized : after.offset + after.rest.length = cursor.offset + cursor.rest.length
  flaw : (after.ahead later).flaw = (cursor.ahead quote).flaw
  stretches : (after.ahead later).stretches ⊆ (cursor.ahead quote).stretches

namespace Advances

variable {quote later latest : Option OpenQuote} {cursor after last : Cursor}

theorem of_eq
    (suffix : after.rest <:+ cursor.rest)
    (sized : after.offset + after.rest.length = cursor.offset + cursor.rest.length)
    (same : cursor.ahead quote = after.ahead later) :
    Advances quote cursor later after :=
  ⟨suffix, sized, by rw [same], by simp [same]⟩

theorem refl
    (quote : Option OpenQuote)
    (cursor : Cursor) :
    Advances quote cursor quote cursor :=
  of_eq List.suffix_rfl rfl rfl

theorem trans
    (first : Advances quote cursor later after)
    (second : Advances later after latest last) :
    Advances quote cursor latest last :=
  ⟨second.suffix.trans first.suffix, second.sized.trans first.sized,
    second.flaw.trans first.flaw, List.Subset.trans second.stretches first.stretches⟩

/-- Ordinary bytes do not matter. -/
theorem dropWhile
    {accept : UInt8 → Bool}
    (ordinary : ∀ byte, accept byte = true → isOrdinary byte = true)
    (cursor : Cursor) :
    Advances none cursor none
      ⟨cursor.rest.dropWhile accept, cursor.offset + (cursor.rest.takeWhile accept).length⟩ := by
  refine of_eq (List.dropWhile_suffix _) ?_ (Source.outlineFrom_dropWhile ordinary _ _)
  have sized := congrArg List.length (cursor.rest.takeWhile_append_dropWhile (p := accept))
  simp only [List.length_append] at sized
  simp only
  omega

/-- A stretch in braces does not matter. -/
theorem braces
    (offset : Nat)
    {rest inside behind : Text}
    (closed : Source.bracesEnd? rest = some (inside, behind)) :
    Advances none ⟨Byte.openBrace :: rest, offset⟩ none ⟨behind, offset + inside.length + 2⟩ := by
  refine of_eq ?_ ?_ (Source.outlineFrom_braces offset closed)
  · exact (Source.balanced?_sized closed).1.trans (List.suffix_cons _ _)
  · have sized := Source.length_of_bracesEnd? closed
    simp only [List.length_cons]
    omega

/-- A stretch in brackets without a flaw does not matter. -/
theorem brackets
    (quote : Option OpenQuote)
    (offset : Nat)
    {rest inside behind : Text}
    (closed : Source.bracketsEnd? rest = some (inside, behind))
    (flawless : (outline inside).flaw = none) :
    Advances quote ⟨Byte.openBracket :: rest, offset⟩ quote
      ⟨behind, offset + inside.length + 2⟩ where
  suffix := (Source.balanced?_sized closed).1.trans (List.suffix_cons _ _)
  sized := by
    have sized := Source.length_of_bracketsEnd? closed
    simp only [List.length_cons]
    omega
  flaw := by
    have flawlessThere : (outlineFrom none (offset + 1) inside).flaw = none := by
      have same := Source.flaw_inside (offset + 1) inside
      rw [flawless] at same
      simpa using same
    simp [Cursor.ahead, Source.outlineFrom_brackets quote offset closed, Outline.before,
      flawlessThere]
  stretches := by
    simp [Cursor.ahead, Source.outlineFrom_brackets quote offset closed, Outline.before]

/-- One byte that neither is a flaw nor opens brackets. -/
theorem next
    {byte : UInt8}
    {rest : Text}
    {offset : Nat}
    (same : outlineFrom quote offset (byte :: rest) = outlineFrom later (offset + 1) rest) :
    Advances quote ⟨byte :: rest, offset⟩ later ⟨rest, offset + 1⟩ := by
  refine of_eq (List.suffix_cons _ _) ?_ same
  simp only [List.length_cons]
  omega

/-- Where the offset is the same, nothing has been read. -/
theorem eq_of_offset
    (advances : Advances quote cursor later after)
    (same : after.offset = cursor.offset) :
    after = cursor := by
  have sized := advances.sized
  have rests := advances.suffix.eq_of_length (by omega)
  cases cursor
  cases after
  simp_all

end Advances

/-- Blanks are ordinary. -/
theorem Source.isOrdinary_of_isSpace
    {byte : UInt8}
    (space : Byte.isSpace byte = true) :
    isOrdinary byte = true := by
  revert byte
  apply Byte.of_codes
  decide +kernel

/-- Separators are ordinary. -/
theorem Source.isOrdinary_of_isSeparator
    {byte : UInt8}
    (separator : Byte.isSeparator byte = true) :
    isOrdinary byte = true := by
  revert byte
  apply Byte.of_codes
  decide +kernel

/-- In a plain text blanks do not matter; behind them no blank follows. -/
theorem Source.skipFrom_advances
    (state : BlankState)
    (isOpen : state = .plain ∨ state = .joined)
    (text : Text)
    (offset : Nat)
    (plain : isPlain text = true) :
    (skipFrom false state text offset).openComment = none ∧
      Advances none ⟨text, offset⟩ none (skipFrom false state text offset).cursor ∧
      ∀ byte ∈ (skipFrom false state text offset).cursor.rest.head?,
        Byte.isSpace byte = true → Byte.isSeparator byte = true := by
  induction text generalizing state offset with
  | nil =>
      rcases isOpen with rfl | rfl <;> simp [skipFrom, Advances.refl]
  | cons byte rest inductionHypothesis =>
      have plainRest : isPlain rest = true := isPlain_of_suffix (List.suffix_cons _ _) plain
      simp only [isPlain, Bool.and_eq_true, bne_iff_ne] at plain
      have notHash : byte ≠ Byte.hash := plain.1.1.1
      have skips : isOrdinary byte = true → ∀ state, state = .plain ∨ state = .joined →
          (skipFrom false state rest (offset + 1)).openComment = none ∧
            Advances none ⟨byte :: rest, offset⟩ none
              (skipFrom false state rest (offset + 1)).cursor ∧
            ∀ byte ∈ (skipFrom false state rest (offset + 1)).cursor.rest.head?,
              Byte.isSpace byte = true → Byte.isSeparator byte = true := by
        intro ordinary state isOpen
        obtain ⟨closed, advances, behind⟩ :=
          inductionHypothesis state isOpen (offset + 1) plainRest
        exact ⟨closed, (Advances.next (outlineFrom_ordinary _ _ ordinary)).trans advances, behind⟩
      rw [skipFrom_cons _ _ _ _ _ isOpen]
      simp only [beq_iff_eq, notHash, if_false, Bool.false_eq_true]
      split
      case isTrue continues =>
        have isBackslash : byte = Byte.backslash := by simp_all
        exact skips (by rw [isBackslash]; decide) .joined (.inr rfl)
      case isFalse =>
        split
        case isTrue joins =>
          exact skips (isOrdinary_of_isLineBreak (by simp_all)) .joined (.inr rfl)
        case isFalse =>
          split
          case isTrue separator =>
            simp [Advances.refl, separator]
          case isFalse notSeparator =>
            split
            case isTrue space =>
              exact skips (isOrdinary_of_isSpace space) .plain (.inl rfl)
            case isFalse notSpace =>
              simp [Advances.refl, notSpace]

/-- In a plain text a quoted run stops at a bracket, the closing quote or the end. -/
theorem quotedRun_advances
    (quote : UInt8)
    (start : Nat)
    (text : Text)
    (offset : Nat)
    (literal : Text)
    (plain : isPlain text = true) :
    Advances (some (quote, start)) ⟨text, offset⟩ (some (quote, start))
        (quotedRun quote text offset literal).2 ∧
      ∀ byte ∈ (quotedRun quote text offset literal).2.rest.head?,
        byte = Byte.openBracket ∨ byte = quote := by
  fun_induction quotedRun quote text offset literal
  case case1 =>
    simp [Advances.refl]
  case case2 | case5 =>
    simp_all [isPlain]
  case case3 byte rest offset literal _ nested =>
    have notDollar : byte ≠ Byte.dollar := by
      simp only [isPlain, Bool.and_eq_true, bne_iff_ne] at plain
      exact plain.1.1.2
    simp_all [Advances.refl]
  case case4 byte offset literal _ isBackslash escaped after _ inductionHypothesis =>
    have suffix : after <:+ byte :: escaped :: after :=
      (List.suffix_cons _ _).trans (List.suffix_cons _ _)
    obtain ⟨advances, stops⟩ := inductionHypothesis (Source.isPlain_of_suffix suffix plain)
    refine ⟨.trans (.of_eq suffix ?_ ?_) advances, stops⟩
    · simp only [List.length_cons]
      omega
    · rw [beq_iff_eq.mp isBackslash]
      exact Source.outlineFrom_escape _ _ _
  case case6 byte rest offset literal _ _ _ isQuote =>
    simp_all [Advances.refl]
  case case7 byte rest offset literal _ notNested notBackslash notQuote inductionHypothesis =>
    obtain ⟨advances, stops⟩ :=
      inductionHypothesis (Source.isPlain_of_suffix (List.suffix_cons _ _) plain)
    simp only [Bool.or_eq_true, beq_iff_eq, not_or] at notNested notBackslash notQuote
    exact ⟨.trans (.next (Source.outlineFrom_quoted _ _ _ notNested.2 notBackslash notQuote))
      advances, stops⟩

namespace Eval

/-! ## Actions that follow an outline -/

/-- Where code is read: how many evaluations run, how many may, and the outermost text. -/
structure Setting where
  depth : Nat
  limit : Nat
  source : Text

/-- A machine in a setting on which nothing has gone wrong. -/
structure Quiet (setting : Setting) (machine : Machine σ) : Prop where
  noError : machine.interpreter.error = none
  uncancelled : machine.interpreter.context = .background
  going : machine.interpreter.currentFrame.stopping = false
  atDepth : machine.interpreter.depth = setting.depth
  inLimit : machine.interpreter.limits.evaluations = setting.limit
  inSource : machine.interpreter.source = setting.source

/--
An error reports the first flaw of an outline; of a flaw of the outermost text that is not in
brackets also its place is reported.
-/
def Reports (outermost : Bool) (source : Text) (ahead : Outline) (error : ScriptError) : Prop :=
  ∃ found, ahead.flaw = some found ∧ error.reason = .malformed found.flaw ∧
    (outermost = true → (∀ stretch ∈ ahead.stretches, stretch.covers found.offset = false) →
      error = .locate (.malformed found.flaw) source found.offset)

theorem Reports.earlier
    {outermost : Bool}
    {source : Text}
    {ahead later : Outline}
    {error : ScriptError}
    (reports : Reports outermost source later error)
    (flaw : later.flaw = ahead.flaw)
    (stretches : later.stretches ⊆ ahead.stretches) :
    Reports outermost source ahead error := by
  obtain ⟨found, isFound, reason, placed⟩ := reports
  exact ⟨found, flaw ▸ isFound, reason,
    fun isOutermost uncovered =>
      placed isOutermost fun stretch member => uncovered stretch (stretches member)⟩

/-- An action that yields a value while an error is pending, and leaves the error. -/
def PassesError (action : Eval σ α) : Prop :=
  ∀ (machine : Machine σ) (error : ScriptError), machine.interpreter.error = some error →
    ∃ value after, action machine = .ok value after ∧ after.interpreter.error = some error

section Follows

variable (outermost : Bool) (setting : Setting)

/--
On a quiet machine an action either yields a value that fits and leaves the machine quiet, or
reports the first flaw of an outline.
-/
def Follows (ahead : Outline) (fits : α → Prop) (action : Eval σ α) : Prop :=
  ∀ machine : Machine σ, Quiet setting machine →
    ∃ value after, action machine = .ok value after ∧
      ((Quiet setting after ∧ fits value) ∨
        ∃ error, after.interpreter.error = some error ∧
          Reports outermost setting.source ahead error)

variable {outermost setting} {ahead later : Outline} {fits : α → Prop}

namespace Follows

theorem pure
    {value : α}
    (fit : fits value) :
    Follows outermost setting ahead fits (Pure.pure value : Eval σ α) :=
  fun machine quiet => ⟨value, machine, rfl, .inl ⟨quiet, fit⟩⟩

theorem bind
    {first : Eval σ α}
    {next : α → Eval σ β}
    {fitsNext : β → Prop}
    (followsFirst : Follows outermost setting ahead fits first)
    (followsNext : ∀ value, fits value →
      Follows outermost setting ahead fitsNext (next value))
    (passes : ∀ value, PassesError (next value)) :
    Follows outermost setting ahead fitsNext (first >>= next) := by
  intro machine quiet
  obtain ⟨value, between, ran, ⟨quietBetween, fit⟩ | ⟨error, pending, reports⟩⟩ :=
    followsFirst machine quiet
  · rw [bind_of_ok ran]
    exact followsNext value fit between quietBetween
  · obtain ⟨result, after, ranNext, pendingAfter⟩ := passes value between error pending
    rw [bind_of_ok ran]
    exact ⟨result, after, ranNext, .inr ⟨error, pendingAfter, reports⟩⟩

/-- What follows the outline further on follows it from here. -/
theorem earlier
    {action : Eval σ α}
    (follows : Follows outermost setting later fits action)
    (flaw : later.flaw = ahead.flaw)
    (stretches : later.stretches ⊆ ahead.stretches) :
    Follows outermost setting ahead fits action := by
  intro machine quiet
  obtain ⟨value, after, ran, quietAfter | ⟨error, pending, reports⟩⟩ := follows machine quiet
  · exact ⟨value, after, ran, .inl quietAfter⟩
  · exact ⟨value, after, ran, .inr ⟨error, pending, reports.earlier flaw stretches⟩⟩

theorem weaken
    {action : Eval σ α}
    {fitsLess : α → Prop}
    (follows : Follows outermost setting ahead fits action)
    (weaker : ∀ value, fits value → fitsLess value) :
    Follows outermost setting ahead fitsLess action := by
  intro machine quiet
  obtain ⟨value, after, ran, ⟨quietAfter, fit⟩ | reports⟩ := follows machine quiet
  · exact ⟨value, after, ran, .inl ⟨quietAfter, weaker value fit⟩⟩
  · exact ⟨value, after, ran, .inr reports⟩

/-- What an action yields that changes nothing is handed on. -/
theorem after
    {first : Eval σ α}
    {next : α → Eval σ β}
    {fitsNext : β → Prop}
    {value : α}
    (ran : ∀ machine, first machine = .ok value machine)
    (follows : Follows outermost setting ahead fitsNext (next value)) :
    Follows outermost setting ahead fitsNext (first >>= next) := by
  intro machine quiet
  rw [bind_of_ok (ran machine)]
  exact follows machine quiet

/-- On a quiet machine no error is pending. -/
theorem unlessError
    {next : Bool → Eval σ α}
    (follows : Follows outermost setting ahead fits (next false)) :
    Follows outermost setting ahead fits (hasError >>= next) := by
  intro machine quiet
  rw [hasError_bind_apply, quiet.noError]
  exact follows machine quiet

end Follows

namespace PassesError

theorem pure
    (value : α) :
    PassesError (Pure.pure value : Eval σ α) :=
  fun machine _ pending => ⟨value, machine, rfl, pending⟩

theorem bind
    {first : Eval σ α}
    {next : α → Eval σ β}
    (passesFirst : PassesError first)
    (passesNext : ∀ value, PassesError (next value)) :
    PassesError (first >>= next) := by
  intro machine error pending
  obtain ⟨value, between, ran, pendingBetween⟩ := passesFirst machine error pending
  rw [bind_of_ok ran]
  exact passesNext value between error pendingBetween

/-- Where an error is pending only one of the two ways is taken. -/
theorem onError
    {next : Bool → Eval σ α}
    (passes : PassesError (next true)) :
    PassesError (hasError >>= next) := by
  intro machine error pending
  rw [hasError_bind_apply, pending]
  exact passes machine error pending

/-- The first error wins. -/
theorem raiseAt
    (offset : Int)
    (reason : Reason) :
    PassesError (Eval.raiseAt offset reason : Eval σ Unit) := by
  intro machine error pending
  refine ⟨(), machine, ?_, pending⟩
  rw [Eval.raiseAt, interpreter_bind_apply, pending]
  rfl

theorem malformed
    (reader : Reader)
    (offset : Nat)
    (flaw : Flaw) :
    PassesError (Eval.malformed reader offset flaw : Eval σ Unit) := by
  rw [Eval.malformed]
  split
  · exact raiseAt _ _
  · exact fun machine => raiseAt _ _ machine

theorem skipBlanks
    (reader : Reader)
    (cursor : Cursor) :
    PassesError (Eval.skipBlanks reader cursor : Eval σ Cursor) := by
  rw [Eval.skipBlanks]
  split
  · exact bind (malformed _ _ _) fun _ => pure _
  · exact pure _

theorem wordsFrom
    (reader : Reader)
    (run : Run σ)
    (depth bound : Nat)
    (cursor : Cursor)
    (done : List Text) :
    PassesError (Eval.wordsFrom reader run depth bound cursor done) := by
  intro machine error pending
  exact ⟨_, machine, wordsFrom_of_pending run depth bound cursor done (by simp [pending]), pending⟩

end PassesError

/-- Where no error is pending a reader raises one, at the flaw if it reads the outermost text. -/
theorem malformed_of_unfailed
    (reader : Reader)
    (offset : Nat)
    (flaw : Flaw)
    {machine : Machine σ}
    (noError : machine.interpreter.error = none) :
    ∃ (place : Int) (after : Machine σ),
      malformed reader offset flaw machine = .ok () after ∧
        after.interpreter.error =
          some (.locate (.malformed flaw) machine.interpreter.source place) ∧
        (reader.outermost = true → place = offset) := by
  have raised : ∀ place : Int, ∃ after, raiseAt place (.malformed flaw) machine = .ok () after ∧
      after.interpreter.error =
        some (.locate (.malformed flaw) machine.interpreter.source place) := by
    intro place
    rw [raiseAt, interpreter_bind_apply, noError]
    exact ⟨_, rfl, rfl⟩
  rw [malformed]
  cases reader.outermost with
  | true =>
      obtain ⟨after, ran, pending⟩ := raised offset
      exact ⟨offset, after, ran, pending, fun _ => rfl⟩
  | false =>
      let place : Nat := machine.interpreter.active.getLast?.getD 0
      obtain ⟨after, ran, pending⟩ := raised place
      exact ⟨place, after, ran, pending, fun isTrue => by cases isTrue⟩

/-- A reader reports the flaw that is ahead of it. -/
theorem Follows.malformed
    (reader : Reader)
    {offset : Nat}
    {flaw : Flaw}
    {next : Unit → Eval σ α}
    (isFlaw : ahead.flaw = some ⟨flaw, offset⟩)
    (passes : ∀ value, PassesError (next value)) :
    Follows reader.outermost setting ahead fits
      (Eval.malformed reader offset flaw >>= next) := by
  intro machine quiet
  obtain ⟨place, between, ran, pending, placed⟩ :=
    malformed_of_unfailed reader offset flaw quiet.noError
  obtain ⟨value, after, ranNext, pendingAfter⟩ := passes () between _ pending
  rw [bind_of_ok ran]
  refine ⟨value, after, ranNext, .inr ⟨_, pendingAfter, ⟨flaw, offset⟩, isFlaw, rfl, ?_⟩⟩
  intro isOutermost _
  rw [placed isOutermost, quiet.inSource]

end Follows

/-! ## Readers -/

section Reading

variable (run : Run σ) (setting : Setting)

/-- A place of a plain text at which what is in brackets is run as its outline says. -/
structure Readable (quote : Option OpenQuote) (cursor : Cursor) : Prop where
  plain : isPlain cursor.rest = true
  nested : ∀ stretch ∈ (cursor.ahead quote).stretches,
    Follows false setting (outline stretch.inside)
      (fun _ => (outline stretch.inside).flaw = none) (run stretch.inside false)

variable {run setting} {quote later : Option OpenQuote} {cursor after : Cursor}
  (reader : Reader)

theorem Readable.of_advances
    (readable : Readable run setting quote cursor)
    (advances : Advances quote cursor later after) :
    Readable run setting later after :=
  ⟨Source.isPlain_of_suffix advances.suffix readable.plain,
    fun stretch member => readable.nested stretch (advances.stretches member)⟩

/-- What an evaluation of what is in brackets reports is the first flaw from there on. -/
theorem Reports.of_inside
    {outermost : Bool}
    {offset : Nat}
    {inside : Text}
    {behind : Outline}
    {error : ScriptError}
    {source : Text}
    (reports : Reports false source (outline inside) error) :
    Reports outermost source
      (.before ⟨offset, inside⟩ (outlineFrom none offset inside) behind) error := by
  obtain ⟨found, isFound, reason, -⟩ := reports
  have same := Source.flaw_inside offset inside
  rw [isFound] at same
  obtain ⟨moved, isMoved, sameFlaw⟩ := Option.map_eq_some_iff.mp same
  refine ⟨moved, ?_, by rw [reason, sameFlaw], fun _ uncovered => ?_⟩
  · simp [Outline.before, isMoved]
  · have covered := Source.covers_of_flaw isMoved
    rw [uncovered ⟨offset, inside⟩ (by simp [Outline.before])] at covered
    cases covered

/-- What is in brackets is run, and reported if it has a flaw. -/
theorem bracketPart_follows
    {rest : Text}
    {offset : Nat}
    (readable : Readable run setting quote ⟨Byte.openBracket :: rest, offset⟩) :
    Follows reader.outermost setting (Cursor.ahead ⟨Byte.openBracket :: rest, offset⟩ quote)
      (fun read => Advances quote ⟨Byte.openBracket :: rest, offset⟩ quote read.2 ∧
        read.2.rest <:+ rest)
      (bracketPart reader run ⟨rest, offset + 1⟩) := by
  rw [bracketPart]
  cases closed : Source.bracketsEnd? rest with
  | none =>
      refine Follows.malformed reader ?_ fun _ => .pure _
      simp [Cursor.ahead, Source.outlineFrom_openBracket _ _ closed]
  | some parts =>
      obtain ⟨inside, behind⟩ := parts
      have outlined := Source.outlineFrom_brackets quote offset closed
      have nested := readable.nested ⟨offset + 1, inside⟩
        (by simp [Cursor.ahead, outlined, Outline.before])
      have place : offset + 1 + inside.length + 1 = offset + inside.length + 2 := by omega
      intro machine quiet
      obtain ⟨value, after, ran, ⟨quietAfter, flawless⟩ | ⟨error, pending, reports⟩⟩ :=
        nested machine quiet
      · refine ⟨_, after, bind_of_ok ran, .inl ⟨quietAfter, ?_⟩⟩
        rw [place]
        exact ⟨.brackets quote offset closed flawless, (Source.balanced?_sized closed).1⟩
      · refine ⟨_, after, bind_of_ok ran, .inr ⟨error, pending, ?_⟩⟩
        rw [Cursor.ahead, outlined]
        exact reports.of_inside

/-- What is in braces does not matter. -/
theorem bracePart_follows
    {rest : Text}
    {offset : Nat} :
    Follows (σ := σ) reader.outermost setting
      (Cursor.ahead ⟨Byte.openBrace :: rest, offset⟩ none)
      (fun read => Advances none ⟨Byte.openBrace :: rest, offset⟩ none read.2 ∧
        read.2.rest <:+ rest)
      (bracePart reader ⟨rest, offset + 1⟩) := by
  rw [bracePart]
  cases closed : Source.bracesEnd? rest with
  | none =>
      refine Follows.malformed reader ?_ fun _ => .pure _
      simp [Cursor.ahead, Source.outlineFrom_openBrace _ closed]
  | some parts =>
      have place : offset + 1 + parts.1.length + 1 = offset + parts.1.length + 2 := by omega
      refine .pure ?_
      rw [place]
      exact ⟨.braces offset closed, (Source.balanced?_sized closed).1⟩

/-- What follows the outline at a later place follows it at an earlier one. -/
theorem Follows.of_advances
    {outermost : Bool}
    {fits : α → Prop}
    {action : Eval σ α}
    (advances : Advances quote cursor later after)
    (follows : Follows outermost setting (after.ahead later) fits action) :
    Follows outermost setting (cursor.ahead quote) fits action :=
  follows.earlier advances.flaw advances.stretches

theorem Follows.unlessFailed
    {outermost : Bool}
    {ahead : Outline}
    {fits fitsNext : Text × Cursor → Prop}
    {first : Eval σ (Text × Cursor)}
    {next : Text → Cursor → Eval σ (Text × Cursor)}
    (ended : Text → Text)
    (followsFirst : Follows outermost setting ahead fits first)
    (followsNext : ∀ value after, fits (value, after) →
      Follows outermost setting ahead fitsNext (next value after)) :
    Follows outermost setting ahead fitsNext (Eval.unlessFailed first ended next) := by
  refine followsFirst.bind (fun read fit => ?_) fun read => ?_
  · exact .unlessError (followsNext read.1 read.2 fit)
  · exact .onError (.pure _)

/-- A quoted part ends at its closing quote, or reports the first flaw. -/
theorem quotedPart_follows
    (name : Cursor → Eval σ (Text × Cursor))
    {byte : UInt8}
    (isQuote : byte = Byte.doubleQuote ∨ byte = Byte.singleQuote)
    (start bound : Nat) :
    ∀ (cursor : Cursor) (done : Text), cursor.rest.length < bound →
      Readable run setting (some (byte, start)) cursor →
      Follows reader.outermost setting (cursor.ahead (some (byte, start)))
        (fun read => Advances (some (byte, start)) cursor none read.2)
        (quotedPart reader run name byte start bound cursor done) := by
  induction bound with
  | zero =>
      intro cursor done small
      omega
  | succ bound inductionHypothesis =>
      intro cursor done small readable
      obtain ⟨advances, stops⟩ :=
        quotedRun_advances byte start cursor.rest cursor.offset done readable.plain
      cases ran : quotedRun byte cursor.rest cursor.offset done with
      | mk literal stop =>
          rw [ran] at advances stops
          simp only at advances stops
          refine .of_advances advances ?_
          obtain ⟨left, offset⟩ := stop
          cases left with
          | nil =>
              rw [quotedPart]
              simp only [ran]
              exact .malformed reader (by simp [Cursor.ahead]) fun _ => .pure _
          | cons stopped rest =>
              have shorter := advances.suffix.length_le
              have readableThere := readable.of_advances advances
              have notDollar : stopped ≠ Byte.dollar := by
                have plain := readableThere.plain
                simp only [isPlain, Bool.and_eq_true, bne_iff_ne] at plain
                exact plain.1.1.2
              rw [quotedPart_of_run reader run name byte start bound ran]
              simp only [beq_iff_eq, notDollar, if_false]
              split
              case isTrue isBracket =>
                subst isBracket
                refine .unlessFailed _ (bracketPart_follows reader readableThere)
                  fun value after passed => ?_
                obtain ⟨passes, suffix⟩ := passed
                have shorterStill : after.rest.length ≤ rest.length := suffix.length_le
                simp only [List.length_cons] at shorter
                have goesOn := inductionHypothesis after (value.reverse ++ literal) (by omega)
                  (readableThere.of_advances passes)
                exact (Follows.of_advances passes goesOn).weaken
                  fun read ends => (advances.trans passes).trans ends
              case isFalse notBracket =>
                have isCloser : stopped = byte := by
                  simpa [notBracket] using stops stopped
                subst isCloser
                have ends := Source.outlineFrom_quoteEnd start offset rest notBracket
                  (by rcases isQuote with rfl | rfl <;> decide)
                exact .pure (advances.trans (.next ends))

/-- Skipping blanks in a plain text stops before a word, a separator or the end. -/
theorem skipBlanks_of_plain
    (lines : reader.acrossLines = false)
    (plain : isPlain cursor.rest = true) :
    ∃ place, (∀ machine : Machine σ, skipBlanks reader cursor machine = .ok place machine) ∧
      Advances none cursor none place ∧
      ∀ byte ∈ place.rest.head?, Byte.isSpace byte = true → Byte.isSeparator byte = true := by
  obtain ⟨noComment, skipped⟩ :=
    Source.skipFrom_advances .plain (.inl rfl) cursor.rest cursor.offset plain
  refine ⟨_, fun machine => skipBlanks_apply ?_, skipped⟩
  rw [Source.skipBlanks, lines, ← noComment]

/-- A byte of a bare run is ordinary. -/
theorem isOrdinary_of_isBare
    {byte : UInt8}
    (bare : isBare byte = true) :
    isOrdinary byte = true := by
  revert byte
  apply Byte.of_codes
  decide +kernel

/-- A byte with which no part starts, and that is neither a blank nor a separator. -/
theorem closes_of_not_isBare
    {byte : UInt8}
    (notBare : isBare byte = false)
    (notDollar : byte ≠ Byte.dollar)
    (notBrace : byte ≠ Byte.openBrace)
    (notBracket : byte ≠ Byte.openBracket)
    (notQuote : ¬ (byte = Byte.doubleQuote ∨ byte = Byte.singleQuote))
    (notBlank : Byte.isSpace byte = true → Byte.isSeparator byte = true)
    (notSeparator : Byte.isSeparator byte = false) :
    byte = Byte.closeBrace ∨ byte = Byte.closeBracket := by
  revert byte
  apply Byte.of_codes
  decide +kernel

/--
A part leads further in a plain text, or reports the first flaw.  It takes nothing only before a
byte that is a flaw.
-/
theorem partAt_follows
    {bound : Nat}
    {byte : UInt8}
    {rest : Text}
    {offset : Nat}
    (small : rest.length ≤ bound)
    (readable : Readable run setting none ⟨byte :: rest, offset⟩)
    (notBlank : Byte.isSpace byte = true → Byte.isSeparator byte = true) :
    Follows reader.outermost setting (Cursor.ahead ⟨byte :: rest, offset⟩ none)
      (fun read => Advances none ⟨byte :: rest, offset⟩ none read.2 ∧
        (read.2.rest = byte :: rest → Byte.isSeparator byte = false →
          (Cursor.ahead ⟨byte :: rest, offset⟩ none).flaw = some ⟨.strayCloser byte, offset⟩))
      (partAt reader run bound byte rest offset) := by
  have notDollar : byte ≠ Byte.dollar := by
    have plain := readable.plain
    simp only [isPlain, Bool.and_eq_true, bne_iff_ne] at plain
    exact plain.1.1.2
  have taken : ∀ {left : Text}, left <:+ rest → left ≠ byte :: rest := by
    rintro left suffix rfl
    have longer := suffix.length_le
    simp only [List.length_cons] at longer
    omega
  simp only [partAt, beq_iff_eq, notDollar, if_false, Bool.or_eq_true]
  split
  case isTrue isBrace =>
    subst isBrace
    exact (bracePart_follows reader).weaken
      fun read passed => ⟨passed.1, fun same => absurd same (taken passed.2)⟩
  case isFalse notBrace =>
    split
    case isTrue isBracket =>
      subst isBracket
      exact (bracketPart_follows reader readable).weaken
        fun read passed => ⟨passed.1, fun same => absurd same (taken passed.2)⟩
    case isFalse notBracket =>
      split
      case isTrue isQuote =>
        have opens := Advances.next (Source.outlineFrom_quote offset rest isQuote)
        have reading := quotedPart_follows reader (part reader run bound) isQuote offset (bound + 1)
          ⟨rest, offset + 1⟩ [] (Nat.lt_succ_of_le small) (readable.of_advances opens)
        exact (Follows.of_advances opens reading).weaken fun read passed =>
          ⟨opens.trans passed, fun same => absurd same (taken passed.suffix)⟩
      case isFalse notQuote =>
        refine .pure ⟨.dropWhile (fun _ => isOrdinary_of_isBare) _, fun same notSeparator => ?_⟩
        have notBare : isBare byte = false := by
          refine Bool.eq_false_iff.mpr fun bare => taken (List.dropWhile_suffix isBare) ?_
          simpa [bare] using same
        have closes := closes_of_not_isBare notBare notDollar notBrace notBracket notQuote notBlank
          notSeparator
        simp [Cursor.ahead, Source.outlineFrom_closer offset rest closes]

theorem part_follows
    (lines : reader.acrossLines = false)
    {bound : Nat}
    (small : cursor.rest.length < bound)
    (readable : Readable run setting none cursor)
    (notBreak : Source.atBreak cursor.rest = false) :
    Follows reader.outermost setting (cursor.ahead none)
      (fun read => Advances none cursor none read.2 ∧
        (read.2.offset = cursor.offset → (cursor.ahead none).flaw =
          some ⟨.strayCloser (cursor.rest.headD 0), cursor.offset⟩))
      (part reader run bound cursor) := by
  obtain ⟨smaller, rfl⟩ : ∃ smaller, bound = smaller + 1 := ⟨bound - 1, by omega⟩
  obtain ⟨place, skips, advances, notBlank⟩ := skipBlanks_of_plain reader lines readable.plain
  rw [part_succ]
  refine .after skips (.of_advances advances ?_)
  obtain ⟨left, offset⟩ := place
  cases left with
  | nil =>
      refine .pure ⟨advances, fun same => ?_⟩
      cases advances.eq_of_offset same
      cases notBreak
  | cons byte rest =>
      have shorter := advances.suffix.length_le
      simp only [List.length_cons] at shorter
      refine (partAt_follows reader (by omega) (readable.of_advances advances)
        (notBlank byte rfl)).weaken fun read passed => ⟨advances.trans passed.1, fun same => ?_⟩
      have nothing : read.2 = cursor := (advances.trans passed.1).eq_of_offset same
      have longer := passed.1.suffix.length_le
      rw [nothing] at longer
      have unmoved : offset = cursor.offset := by
        have sized := advances.sized
        simp only [List.length_cons] at longer sized
        omega
      cases advances.eq_of_offset unmoved
      exact passed.2 (by rw [nothing]) notBreak

/-- A word leads further in a plain text, or reports the first flaw. -/
theorem word_follows
    (lines : reader.acrossLines = false)
    (depth bound : Nat) :
    ∀ (cursor : Cursor) (done : Text), cursor.rest.length < bound → cursor.rest.length < depth →
      Readable run setting none cursor → Source.atBreak cursor.rest = false →
      Follows reader.outermost setting (cursor.ahead none)
        (fun read => ∃ value after, read = some (value, after) ∧ Advances none cursor none after ∧
          after.rest.length < cursor.rest.length)
        (word reader run depth bound cursor done) := by
  induction bound with
  | zero =>
      intro cursor done small
      omega
  | succ bound inductionHypothesis =>
      intro cursor done small shallow readable notBreak
      rw [word]
      refine (part_follows reader lines shallow readable notBreak).bind ?_ ?_
      · rintro ⟨value, after⟩ ⟨advances, unmoved⟩
        simp only [beq_iff_eq]
        split
        case isTrue same =>
          exact .malformed reader (unmoved same) fun _ => .pure _
        case isFalse moved =>
          refine .unlessError ?_
          have shorter : after.rest.length < cursor.rest.length := by
            have sized := advances.sized
            have atMost := advances.suffix.length_le
            simp only at sized atMost
            omega
          split
          case isTrue =>
            exact .pure ⟨_, after, rfl, advances, shorter⟩
          case isFalse goesOn =>
            have notBreakThere : Source.atBreak after.rest = false := by
              refine Bool.eq_false_iff.mpr fun isAtBreak => goesOn ?_
              rw [Bool.or_false]
              exact endsWord_of_atBreak isAtBreak
            have reading := inductionHypothesis after (value.reverse ++ done) (by omega) (by omega)
              (readable.of_advances advances) notBreakThere
            refine (Follows.of_advances advances reading).weaken ?_
            rintro read ⟨result, last, isRead, further, shorterStill⟩
            exact ⟨result, last, isRead, advances.trans further, by omega⟩
      · rintro ⟨value, after⟩
        simp only [beq_iff_eq]
        split
        · exact .bind (.malformed reader _ _) fun _ => .pure _
        · refine .onError ?_
          simp only [Bool.or_true, if_true]
          exact .pure _

/-- The words of a command lead further in a plain text, or report the first flaw. -/
theorem wordsFrom_follows
    (lines : reader.acrossLines = false)
    (depth bound : Nat) :
    ∀ (cursor : Cursor) (done : List Text), cursor.rest.length < depth →
      Readable run setting none cursor →
      Follows reader.outermost setting (cursor.ahead none)
        (fun read => ∃ items after, read = some (items, after) ∧ Advances none cursor none after ∧
          (0 < bound → Source.atBreak cursor.rest = false →
            after.rest.length < cursor.rest.length))
        (wordsFrom reader run depth bound cursor done) := by
  induction bound with
  | zero =>
      intro cursor done shallow readable
      exact .pure ⟨_, cursor, rfl, .refl _ _, fun impossible => absurd impossible (Nat.lt_irrefl 0)⟩
  | succ bound inductionHypothesis =>
      intro cursor done shallow readable machine quiet
      cases isAtBreak : Source.atBreak cursor.rest with
      | true =>
          refine ⟨_, machine, wordsFrom_of_atBreak lines run depth _ isAtBreak _ done machine,
            .inl ⟨quiet, _, cursor, rfl, .refl _ _, fun _ notBreak => ?_⟩⟩
          cases notBreak
      | false =>
          rw [wordsFrom_of_going lines run depth bound isAtBreak done quiet.noError]
          refine (word_follows reader lines depth depth cursor [] shallow shallow readable
            isAtBreak).bind ?_ ?_ machine quiet
          · rintro read ⟨value, after, rfl, advances, shorter⟩
            obtain ⟨place, skips, skipped, -⟩ :=
              skipBlanks_of_plain reader lines (readable.of_advances advances).plain
            have shorterThere := skipped.suffix.length_le
            have reading := inductionHypothesis place (value :: done) (by omega)
              (readable.of_advances (advances.trans skipped))
            refine .after skips ((Follows.of_advances (advances.trans skipped) reading).weaken ?_)
            rintro read ⟨items, last, isRead, further, -⟩
            have shorterStill := further.suffix.length_le
            exact ⟨items, last, isRead, (advances.trans skipped).trans further, by omega⟩
          · intro read
            cases read with
            | none =>
                exact .pure _
            | some read =>
                exact .bind (.skipBlanks _ _) fun _ => .wordsFrom _ _ _ _ _ _

/-- The words at a place lead further in a plain text, or report the first flaw. -/
theorem words_follows
    (lines : reader.acrossLines = false)
    {bound : Nat}
    (small : cursor.rest.length < bound)
    (readable : Readable run setting none cursor) :
    Follows reader.outermost setting (cursor.ahead none)
      (fun read => ∃ items after, read = some (items, after) ∧ Advances none cursor none after ∧
        (Source.atBreak cursor.rest = false → after.rest.length < cursor.rest.length))
      (words reader run bound cursor) := by
  obtain ⟨place, skips, skipped, -⟩ := skipBlanks_of_plain reader lines readable.plain
  have shorter := skipped.suffix.length_le
  have reading := wordsFrom_follows reader lines bound bound place [] (by omega)
    (readable.of_advances skipped)
  refine .after skips ((Follows.of_advances skipped reading).weaken ?_)
  rintro read ⟨items, after, isRead, further, progress⟩
  refine ⟨items, after, isRead, skipped.trans further, fun notBreak => ?_⟩
  by_cases unmoved : place.offset = cursor.offset
  · cases skipped.eq_of_offset unmoved
    exact progress (by omega) notBreak
  · have sized := skipped.sized
    have shorterStill := further.suffix.length_le
    omega

end Reading

end Eval

end LittleScript
