import LittleScript.Proofs.Outline
import LittleScript.Proofs.Progress

namespace LittleScript

/-!
# Places of flaws

The offset of a flaw in a text is that of the character which is at fault: the opener that is never
closed, or the closer that nothing opened.
-/

namespace Source

/-- A cursor stands in a text where its offset says. -/
def Cursor.IsIn (cursor : Cursor) (code : Text) : Prop :=
  cursor.rest = code.drop cursor.offset

/-- A cursor stands on no blank, other than one that separates commands. -/
def Cursor.Settled (cursor : Cursor) : Prop :=
  cursor.isOn Byte.isSpace = true → cursor.isOn Byte.isSeparator = true

/-- A cursor stands on a byte that is neither a blank nor a separator. -/
def Cursor.OnWord (cursor : Cursor) : Prop :=
  ∃ byte rest, cursor.rest = byte :: rest ∧ Byte.isSpace byte = false ∧
    Byte.isSeparator byte = false

/-- Past the separators that are next. -/
def Cursor.pastSeparators (cursor : Cursor) : Cursor where
  rest := cursor.rest.dropWhile Byte.isSeparator
  offset := cursor.offset + (cursor.rest.takeWhile Byte.isSeparator).length

/-- A settled cursor that is not at the end of a command is on a word. -/
theorem Cursor.Settled.onWord
    {cursor : Cursor}
    (settled : cursor.Settled)
    (notDone : cursor.isDone = false)
    (notSeparator : cursor.isOn Byte.isSeparator = false) :
    cursor.OnWord := by
  obtain ⟨left, offset⟩ := cursor
  cases left with
  | nil =>
      cases notDone
  | cons byte rest =>
      refine ⟨byte, rest, rfl, Bool.eq_false_iff.mpr fun space => ?_, notSeparator⟩
      have separates : Byte.isSeparator byte = true := settled space
      rw [show Byte.isSeparator byte = false from notSeparator] at separates
      cases separates

/--
How far a part of a word reaches and, behind the quote that opens it, a quoted part: blanks before
a part belong to it, names behind dollars are parts themselves, and what is nested in braces and
brackets is passed over.
-/
inductive Spans : Option UInt8 → Cursor → Cursor → Prop where
  | nothing {cursor : Cursor} {offset : Nat} :
      (skipBlanks false cursor).cursor = ⟨[], offset⟩ →
      Spans none cursor ⟨[], offset⟩
  | dollar {cursor after : Cursor} {rest : Text} {offset : Nat} :
      (skipBlanks false cursor).cursor = ⟨Byte.dollar :: rest, offset⟩ →
      Spans none ⟨rest, offset + 1⟩ after →
      Spans none cursor after
  | braces {cursor : Cursor} {rest inside behind : Text} {offset : Nat} :
      (skipBlanks false cursor).cursor = ⟨Byte.openBrace :: rest, offset⟩ →
      bracesEnd? rest = some (inside, behind) →
      Spans none cursor ⟨behind, offset + 1 + inside.length + 1⟩
  | brackets {cursor : Cursor} {rest inside behind : Text} {offset : Nat} :
      (skipBlanks false cursor).cursor = ⟨Byte.openBracket :: rest, offset⟩ →
      bracketsEnd? rest = some (inside, behind) →
      Spans none cursor ⟨behind, offset + 1 + inside.length + 1⟩
  | quoted {cursor after : Cursor} {quote : UInt8} {rest : Text} {offset : Nat} :
      (skipBlanks false cursor).cursor = ⟨quote :: rest, offset⟩ →
      quote = Byte.doubleQuote ∨ quote = Byte.singleQuote →
      Spans (some quote) ⟨rest, offset + 1⟩ after →
      Spans none cursor after
  | bare {cursor : Cursor} {byte : UInt8} {rest : Text} {offset : Nat} :
      (skipBlanks false cursor).cursor = ⟨byte :: rest, offset⟩ →
      byte ∉ [Byte.dollar, Byte.openBrace, Byte.openBracket, Byte.doubleQuote, Byte.singleQuote] →
      Spans none cursor ⟨(byte :: rest).dropWhile isBare,
        offset + ((byte :: rest).takeWhile isBare).length⟩
  | closed {cursor : Cursor} {quote : UInt8} {rest literal done : Text} {offset : Nat} :
      quotedRun quote cursor.rest cursor.offset done = (literal, ⟨quote :: rest, offset⟩) →
      Spans (some quote) cursor ⟨rest, offset + 1⟩
  | dollarInside {cursor between after : Cursor} {quote : UInt8} {rest literal done : Text}
      {offset : Nat} :
      quotedRun quote cursor.rest cursor.offset done = (literal, ⟨Byte.dollar :: rest, offset⟩) →
      Spans none ⟨rest, offset + 1⟩ between →
      Spans (some quote) between after →
      Spans (some quote) cursor after
  | bracketsInside {cursor after : Cursor} {quote : UInt8} {rest inside behind literal done : Text}
      {offset : Nat} :
      quotedRun quote cursor.rest cursor.offset done =
        (literal, ⟨Byte.openBracket :: rest, offset⟩) →
      bracketsEnd? rest = some (inside, behind) →
      Spans (some quote) ⟨behind, offset + 1 + inside.length + 1⟩ after →
      Spans (some quote) cursor after

/-- The text ends before the quote that would close a quoted part. -/
inductive NeverCloses (quote : UInt8) : Cursor → Prop where
  | ends {cursor : Cursor} {literal done : Text} {offset : Nat} :
      quotedRun quote cursor.rest cursor.offset done = (literal, ⟨[], offset⟩) →
      NeverCloses quote cursor
  | dollarInside {cursor between : Cursor} {rest literal done : Text} {offset : Nat} :
      quotedRun quote cursor.rest cursor.offset done = (literal, ⟨Byte.dollar :: rest, offset⟩) →
      Spans none ⟨rest, offset + 1⟩ between →
      NeverCloses quote between →
      NeverCloses quote cursor
  | bracketsInside {cursor : Cursor} {rest inside behind literal done : Text} {offset : Nat} :
      quotedRun quote cursor.rest cursor.offset done =
        (literal, ⟨Byte.openBracket :: rest, offset⟩) →
      bracketsEnd? rest = some (inside, behind) →
      NeverCloses quote ⟨behind, offset + 1 + inside.length + 1⟩ →
      NeverCloses quote cursor

/-- A flaw of a text at the offset of the character that is at fault. -/
inductive FlawAt (code : Text) (offset : Nat) : Flaw → Prop where
  | openComment :
      opensBlock (code.drop offset) = true →
      (∀ further, opensBlock (code.drop (offset + 2 + further)) = false) →
      FlawAt code offset .openComment
  | openBrace {rest : Text} :
      code.drop offset = Byte.openBrace :: rest →
      bracesEnd? rest = none →
      FlawAt code offset .openBrace
  | openBracket {rest : Text} :
      code.drop offset = Byte.openBracket :: rest →
      bracketsEnd? rest = none →
      FlawAt code offset .openBracket
  | openQuote {quote : UInt8} {rest : Text} :
      code.drop offset = quote :: rest →
      quote = Byte.doubleQuote ∨ quote = Byte.singleQuote →
      NeverCloses quote ⟨rest, offset + 1⟩ →
      FlawAt code offset .openQuote
  | strayCloser {byte : UInt8} {rest : Text} :
      code.drop offset = byte :: rest →
      byte = Byte.closeBrace ∨ byte = Byte.closeBracket →
      FlawAt code offset (.strayCloser byte)

/--
A part of a word and, behind the quote that opens it, a quoted part run into a flaw at an offset: a
comment, a brace, a bracket or a quote that is never closed.
-/
inductive RunsInto : Option UInt8 → Cursor → Nat → Flaw → Prop where
  | openComment {cursor : Cursor} {offset : Nat} :
      (skipBlanks false cursor).openComment = some offset →
      RunsInto none cursor offset .openComment
  | openBrace {cursor : Cursor} {rest : Text} {offset : Nat} :
      (skipBlanks false cursor).cursor = ⟨Byte.openBrace :: rest, offset⟩ →
      bracesEnd? rest = none →
      RunsInto none cursor offset .openBrace
  | openBracket {cursor : Cursor} {rest : Text} {offset : Nat} :
      (skipBlanks false cursor).cursor = ⟨Byte.openBracket :: rest, offset⟩ →
      bracketsEnd? rest = none →
      RunsInto none cursor offset .openBracket
  | openQuote {cursor : Cursor} {quote : UInt8} {rest : Text} {offset : Nat} :
      (skipBlanks false cursor).cursor = ⟨quote :: rest, offset⟩ →
      quote = Byte.doubleQuote ∨ quote = Byte.singleQuote →
      NeverCloses quote ⟨rest, offset + 1⟩ →
      RunsInto none cursor offset .openQuote
  | dollar {cursor : Cursor} {rest : Text} {offset found : Nat} {flaw : Flaw} :
      (skipBlanks false cursor).cursor = ⟨Byte.dollar :: rest, offset⟩ →
      RunsInto none ⟨rest, offset + 1⟩ found flaw →
      RunsInto none cursor found flaw
  | quoted {cursor : Cursor} {quote : UInt8} {rest : Text} {offset found : Nat} {flaw : Flaw} :
      (skipBlanks false cursor).cursor = ⟨quote :: rest, offset⟩ →
      quote = Byte.doubleQuote ∨ quote = Byte.singleQuote →
      RunsInto (some quote) ⟨rest, offset + 1⟩ found flaw →
      RunsInto none cursor found flaw
  | dollarInside {cursor : Cursor} {quote : UInt8} {rest literal done : Text} {offset found : Nat}
      {flaw : Flaw} :
      quotedRun quote cursor.rest cursor.offset done = (literal, ⟨Byte.dollar :: rest, offset⟩) →
      RunsInto none ⟨rest, offset + 1⟩ found flaw →
      RunsInto (some quote) cursor found flaw
  | bracketInside {cursor : Cursor} {quote : UInt8} {rest literal done : Text} {offset : Nat} :
      quotedRun quote cursor.rest cursor.offset done =
        (literal, ⟨Byte.openBracket :: rest, offset⟩) →
      bracketsEnd? rest = none →
      RunsInto (some quote) cursor offset .openBracket
  | behindDollar {cursor between : Cursor} {quote : UInt8} {rest literal done : Text}
      {offset found : Nat} {flaw : Flaw} :
      quotedRun quote cursor.rest cursor.offset done = (literal, ⟨Byte.dollar :: rest, offset⟩) →
      Spans none ⟨rest, offset + 1⟩ between →
      RunsInto (some quote) between found flaw →
      RunsInto (some quote) cursor found flaw
  | behindBrackets {cursor : Cursor} {quote : UInt8} {rest inside behind literal done : Text}
      {offset found : Nat} {flaw : Flaw} :
      quotedRun quote cursor.rest cursor.offset done =
        (literal, ⟨Byte.openBracket :: rest, offset⟩) →
      bracketsEnd? rest = some (inside, behind) →
      RunsInto (some quote) ⟨behind, offset + 1 + inside.length + 1⟩ found flaw →
      RunsInto (some quote) cursor found flaw

/-- The words of a command run into a flaw of one of their parts, or into a closer between them. -/
inductive WordsRunInto : Cursor → Nat → Flaw → Prop where
  | part {cursor : Cursor} {offset : Nat} {flaw : Flaw} :
      RunsInto none cursor offset flaw →
      WordsRunInto cursor offset flaw
  | strayCloser {byte : UInt8} {rest : Text} {offset : Nat} :
      byte = Byte.closeBrace ∨ byte = Byte.closeBracket →
      WordsRunInto ⟨byte :: rest, offset⟩ offset (.strayCloser byte)
  | behindPart {cursor after : Cursor} {offset : Nat} {flaw : Flaw} :
      Spans none cursor after →
      WordsRunInto after offset flaw →
      WordsRunInto cursor offset flaw
  | behindBlanks {cursor : Cursor} {offset : Nat} {flaw : Flaw} :
      WordsRunInto (skipBlanks false cursor).cursor offset flaw →
      WordsRunInto cursor offset flaw

/-- What is between two commands runs into a comment that is never closed. -/
inductive GapRunsInto (cursor : Cursor) (offset : Nat) : Flaw → Prop where
  | blanks :
      (skipBlanks false cursor).openComment = some offset →
      GapRunsInto cursor offset .openComment
  | behindSeparators :
      (skipBlanks false (skipBlanks false cursor).cursor.pastSeparators).openComment =
        some offset →
      GapRunsInto cursor offset .openComment

/-- A text that opens a block comment starts with a hash. -/
theorem exists_of_opensBlock
    {text : Text}
    (opens : opensBlock text = true) :
    ∃ rest, text = Byte.hash :: Byte.hash :: rest := by
  rw [opensBlock.eq_def] at opens
  split at opens
  · cases opens
  · exact ⟨_, rfl⟩
  · cases opens

/-- The character at fault is no line break. -/
theorem FlawAt.unbroken
    {code : Text}
    {offset : Nat}
    {flaw : Flaw}
    (flawed : FlawAt code offset flaw) :
    ∃ byte rest, code.drop offset = byte :: rest ∧ (byte == Byte.newline) = false ∧
      (byte == Byte.carriageReturn) = false := by
  cases flawed with
  | openComment opens _ =>
      obtain ⟨rest, here⟩ := exists_of_opensBlock opens
      exact ⟨_, _, here, by decide, by decide⟩
  | openBrace here _ => exact ⟨_, _, here, by decide, by decide⟩
  | openBracket here _ => exact ⟨_, _, here, by decide, by decide⟩
  | openQuote here isQuote _ =>
      rcases isQuote with rfl | rfl
      · exact ⟨_, _, here, by decide, by decide⟩
      · exact ⟨_, _, here, by decide, by decide⟩
  | strayCloser here closes =>
      rcases closes with rfl | rfl
      · exact ⟨_, _, here, by decide, by decide⟩
      · exact ⟨_, _, here, by decide, by decide⟩

/-! ## Cursors in their text -/

namespace Cursor.IsIn

variable {code rest : Text} {offset : Nat}

/-- Behind a stretch of its text a cursor is further by the length of the stretch. -/
theorem behind
    {passed : Text}
    (isIn : (⟨passed ++ rest, offset⟩ : Cursor).IsIn code) :
    (⟨rest, offset + passed.length⟩ : Cursor).IsIn code := by
  have here : passed ++ rest = code.drop offset := isIn
  rw [IsIn, ← List.drop_drop, ← here, List.drop_left]

theorem next
    {byte : UInt8}
    (isIn : (⟨byte :: rest, offset⟩ : Cursor).IsIn code) :
    (⟨rest, offset + 1⟩ : Cursor).IsIn code := by
  have split : (⟨[byte] ++ rest, offset⟩ : Cursor).IsIn code := isIn
  exact split.behind

/-- Behind all that is left of its text a cursor is at the end. -/
theorem atEnd
    (isIn : (⟨rest, offset⟩ : Cursor).IsIn code) :
    (⟨[], offset + rest.length⟩ : Cursor).IsIn code := by
  have split : (⟨rest ++ [], offset⟩ : Cursor).IsIn code := by rwa [List.append_nil]
  exact split.behind

/-- At the end of its text a cursor may be anywhere beyond. -/
theorem beyond
    (isIn : (⟨[], offset⟩ : Cursor).IsIn code)
    (more : Nat) :
    (⟨[], offset + more⟩ : Cursor).IsIn code := by
  have ends : [] = code.drop offset := isIn
  rw [IsIn, ← List.drop_drop, ← ends, List.drop_nil]

/-- Behind a stretch in braces a cursor is behind the brace that closes it. -/
theorem behindBraces
    {inside behind : Text}
    (isIn : (⟨Byte.openBrace :: rest, offset⟩ : Cursor).IsIn code)
    (closed : bracesEnd? rest = some (inside, behind)) :
    (⟨behind, offset + 1 + inside.length + 1⟩ : Cursor).IsIn code := by
  rw [eq_of_bracesEnd? closed] at isIn
  exact isIn.next.behind.next

/-- Behind a stretch in brackets a cursor is behind the bracket that closes it. -/
theorem behindBrackets
    {inside behind : Text}
    (isIn : (⟨Byte.openBracket :: rest, offset⟩ : Cursor).IsIn code)
    (closed : bracketsEnd? rest = some (inside, behind)) :
    (⟨behind, offset + 1 + inside.length + 1⟩ : Cursor).IsIn code := by
  rw [eq_of_bracketsEnd? closed] at isIn
  exact isIn.next.behind.next

/-- Behind a bare stretch a cursor is where the stretch ends. -/
theorem behindStretch
    (passes : UInt8 → Bool)
    (isIn : (⟨rest, offset⟩ : Cursor).IsIn code) :
    (⟨rest.dropWhile passes, offset + (rest.takeWhile passes).length⟩ : Cursor).IsIn code := by
  have split : (⟨rest.takeWhile passes ++ rest.dropWhile passes, offset⟩ : Cursor).IsIn code := by
    rwa [List.takeWhile_append_dropWhile]
  exact split.behind

/-- A cursor that takes nothing from its text is where it was. -/
theorem eq_of_offset
    {cursor after : Cursor}
    (isIn : cursor.IsIn code)
    (afterIn : after.IsIn code)
    (same : after.offset = cursor.offset) :
    after = cursor := by
  have here : cursor.rest = code.drop cursor.offset := isIn
  have there : after.rest = code.drop after.offset := afterIn
  have sameRest : after.rest = cursor.rest := by rw [there, here, same]
  obtain ⟨_, _⟩ := cursor
  obtain ⟨_, _⟩ := after
  exact (Cursor.mk.injEq ..).mpr ⟨sameRest, same⟩

end Cursor.IsIn

/-- A blank stretch ends in the text in which it starts. -/
theorem skipFrom_isIn
    (acrossLines : Bool)
    (state : BlankState)
    {code text : Text}
    {offset : Nat}
    (isIn : (⟨text, offset⟩ : Cursor).IsIn code) :
    (skipFrom acrossLines state text offset).cursor.IsIn code := by
  fun_induction skipFrom acrossLines state text offset
  all_goals first
    | exact isIn
    | exact isIn.next
    | exact ‹_ → _› isIn.next
    | exact ‹_ → _› isIn.next.next

/-- A quoted run stops in the text in which it starts. -/
theorem quotedRun_isIn
    (quote : UInt8)
    {code text : Text}
    {offset : Nat}
    (isIn : (⟨text, offset⟩ : Cursor).IsIn code)
    (literal : Text) :
    (quotedRun quote text offset literal).2.IsIn code := by
  fun_induction quotedRun quote text offset literal
  all_goals first
    | exact isIn
    | exact isIn.next.beyond 1
    | exact ‹_ → _› isIn.next
    | exact ‹_ → _› isIn.next.next

/-- A quoted run stops before a dollar, an opening bracket or its quote, if not at the end. -/
theorem quotedRun_stops
    (quote : UInt8)
    (text : Text)
    (offset : Nat)
    (literal : Text) :
    ∀ byte ∈ (quotedRun quote text offset literal).2.rest.head?,
      byte = Byte.dollar ∨ byte = Byte.openBracket ∨ byte = quote := by
  fun_induction quotedRun quote text offset literal
  case case3 nested =>
    simpa [← or_assoc] using .inl (by simpa using nested)
  all_goals first
    | exact ‹_›
    | simp_all

/--
A blank stretch reports a block comment that never ends at the mark that opens it, if it has not
started inside that comment.  Outside of block comments a stretch ends or goes on byte by byte.
-/
theorem flawAt_of_openComment
    (acrossLines : Bool)
    (state : BlankState)
    {code text : Text}
    {offset start : Nat}
    (isIn : (⟨text, offset⟩ : Cursor).IsIn code)
    (opened : (skipFrom acrossLines state text offset).openComment = some start) :
    FlawAt code start .openComment ∨
      state = .block start ∧ ∀ further, opensBlock (code.drop (offset + further)) = false := by
  fun_induction skipFrom acrossLines state text offset
  case case1 =>
    cases opened
    have ends : [] = code.drop _ := isIn
    refine .inr ⟨rfl, fun further => ?_⟩
    rw [← List.drop_drop, ← ends, List.drop_nil]
    rfl
  case case7 opens =>
    simp at opens
  case case8 opening byte rest offset goesOn inductionHypothesis =>
    rcases inductionHypothesis isIn.next opened with flawed | ⟨same, never⟩
    · exact .inl flawed
    · refine .inr ⟨same, fun further => ?_⟩
      cases further with
      | zero =>
          have here : byte :: rest = code.drop offset := isIn
          rw [Nat.add_zero, ← here]
          exact Bool.eq_false_iff.mpr goesOn
      | succ further =>
          rw [← Nat.succ_add_eq_add_succ]
          exact never further
  case case9 state byte offset _ _ _ next after opens inductionHypothesis =>
    have here : byte :: next :: after = code.drop offset := isIn
    rcases inductionHypothesis isIn.next.next opened with flawed | ⟨same, never⟩
    · exact .inl flawed
    · cases same
      exact .inl (.openComment (here ▸ opens) never)
  case case6 inductionHypothesis =>
    exact .inl ((inductionHypothesis isIn.next.next opened).resolve_right (by simp))
  case case3 inductionHypothesis | case5 inductionHypothesis | case11 inductionHypothesis |
      case12 inductionHypothesis | case13 inductionHypothesis | case14 inductionHypothesis |
      case16 inductionHypothesis =>
    exact .inl ((inductionHypothesis isIn.next opened).resolve_right (by simp))
  all_goals cases opened

/-- A blank stretch that ends before a separator does not stand before another blank. -/
theorem skipFrom_settled
    (state : BlankState)
    (text : Text)
    (offset : Nat) :
    (skipFrom false state text offset).cursor.Settled := by
  fun_induction skipFrom false state text offset
  all_goals first
    | exact ‹_›
    | simp_all [Cursor.Settled, Cursor.isOn]

/-! ## Flaws into which words run -/

variable {code : Text} {cursor : Cursor}

/-- Behind blanks a cursor is in the text. -/
theorem Cursor.IsIn.behindBlanks
    (isIn : cursor.IsIn code)
    {place : Cursor}
    (skipped : (skipBlanks false cursor).cursor = place) :
    place.IsIn code := by
  subst skipped
  exact skipFrom_isIn false .plain isIn

/-- Where a quoted run stops a cursor is in the text. -/
theorem Cursor.IsIn.behindRun
    (isIn : cursor.IsIn code)
    {quote : UInt8}
    {literal done : Text}
    {place : Cursor}
    (ran : quotedRun quote cursor.rest cursor.offset done = (literal, place)) :
    place.IsIn code := by
  have starts : (⟨cursor.rest, cursor.offset⟩ : Cursor).IsIn code := isIn
  have stops := quotedRun_isIn quote starts done
  rwa [ran] at stops

/-- A part ends in the text in which it starts. -/
theorem Spans.isIn
    {quote : Option UInt8}
    {after : Cursor}
    (spans : Spans quote cursor after)
    (isIn : cursor.IsIn code) :
    after.IsIn code := by
  induction spans with
  | nothing skipped => exact isIn.behindBlanks skipped
  | dollar skipped _ further => exact further (isIn.behindBlanks skipped).next
  | braces skipped closed => exact (isIn.behindBlanks skipped).behindBraces closed
  | brackets skipped closed => exact (isIn.behindBlanks skipped).behindBrackets closed
  | quoted skipped _ _ further => exact further (isIn.behindBlanks skipped).next
  | bare skipped _ => exact (isIn.behindBlanks skipped).behindStretch isBare
  | closed ran => exact (isIn.behindRun ran).next
  | dollarInside ran _ _ named further => exact further (named (isIn.behindRun ran).next)
  | bracketsInside ran closed _ further =>
      exact further ((isIn.behindRun ran).behindBrackets closed)

/-- The flaw into which a part runs is one of the text. -/
theorem RunsInto.flawAt
    {quote : Option UInt8}
    {offset : Nat}
    {flaw : Flaw}
    (runsInto : RunsInto quote cursor offset flaw)
    (isIn : cursor.IsIn code) :
    FlawAt code offset flaw := by
  induction runsInto with
  | openComment opened =>
      exact (flawAt_of_openComment false .plain isIn opened).resolve_right (by simp)
  | openBrace skipped unclosed => exact .openBrace (isIn.behindBlanks skipped).symm unclosed
  | openBracket skipped unclosed => exact .openBracket (isIn.behindBlanks skipped).symm unclosed
  | openQuote skipped isQuote never =>
      exact .openQuote (isIn.behindBlanks skipped).symm isQuote never
  | dollar skipped _ further => exact further (isIn.behindBlanks skipped).next
  | quoted skipped _ _ further => exact further (isIn.behindBlanks skipped).next
  | dollarInside ran _ further => exact further (isIn.behindRun ran).next
  | bracketInside ran unclosed => exact .openBracket (isIn.behindRun ran).symm unclosed
  | behindDollar ran spans _ further =>
      exact further (spans.isIn (isIn.behindRun ran).next)
  | behindBrackets ran closed _ further =>
      exact further ((isIn.behindRun ran).behindBrackets closed)

/-- The flaw into which what is between two commands runs is one of the text. -/
theorem GapRunsInto.flawAt
    {offset : Nat}
    {flaw : Flaw}
    (runsInto : GapRunsInto cursor offset flaw)
    (isIn : cursor.IsIn code) :
    FlawAt code offset flaw := by
  cases runsInto with
  | blanks opened =>
      exact RunsInto.flawAt (.openComment opened) isIn
  | behindSeparators opened =>
      exact RunsInto.flawAt (.openComment opened)
        ((isIn.behindBlanks rfl).behindStretch Byte.isSeparator)

/-- The flaw into which words run is one of the text. -/
theorem WordsRunInto.flawAt
    {offset : Nat}
    {flaw : Flaw}
    (runsInto : WordsRunInto cursor offset flaw)
    (isIn : cursor.IsIn code) :
    FlawAt code offset flaw := by
  induction runsInto with
  | part runsInto => exact runsInto.flawAt isIn
  | strayCloser closes => exact .strayCloser isIn.symm closes
  | behindPart spans _ further => exact further (spans.isIn isIn)
  | behindBlanks _ further => exact further (isIn.behindBlanks rfl)

end Source

end LittleScript
