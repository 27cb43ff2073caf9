import LittleScript.Proofs.BlankStretch
import LittleScript.Proofs.Commands

namespace LittleScript.Source

/-!
# Where the last command of a text ends

How far the reader of commands gets does not depend on what the commands do.  The functions here
follow it through parts, words and commands and tell only what is left: `lastTail` is the text
behind the last word of the last command.
-/

/-- What is left behind the blanks at the start of a text. -/
def pastBlanks (text : Text) : Text :=
  (skipFrom false .plain text 0).cursor.rest

/-- What is left behind the closer that has been found; where none is, nothing is left. -/
def closedTail (found : Option (Text × Text)) : Text :=
  (found.map Prod.snd).getD []

/-- What is left behind a quoted part, of which the opening quote is passed. -/
def quotedTail (name : Text → Text) (quote : UInt8) : Nat → Text → Text
  | 0, text => text
  | bound + 1, text =>
      match (quotedRun quote text 0 []).2.rest with
      | [] => []
      | byte :: rest =>
          if byte == Byte.dollar then quotedTail name quote bound (name rest)
          else if byte == Byte.openBracket then
            quotedTail name quote bound (closedTail (bracketsEnd? rest))
          else rest

/-- What is left behind a part; where only blanks follow, they are left as well. -/
def partTail : Nat → Text → Text
  | 0, text => text
  | bound + 1, text =>
      match pastBlanks text with
      | [] => text
      | byte :: rest =>
          if byte == Byte.dollar then partTail bound rest
          else if byte == Byte.openBrace then closedTail (bracesEnd? rest)
          else if byte == Byte.openBracket then closedTail (bracketsEnd? rest)
          else if byte == Byte.doubleQuote || byte == Byte.singleQuote then
            quotedTail (partTail bound) byte (bound + 1) rest
          else (byte :: rest).dropWhile isBare

/-- What is left behind a word. -/
def wordTail (depth : Nat) : Nat → Text → Text
  | 0, text => text
  | bound + 1, text =>
      let after := partTail depth text
      if endsWord ⟨after, 0⟩ || (pastBlanks after).isEmpty then after
      else wordTail depth bound after

/-- What is left behind the last word of a command that starts where the text does. -/
def commandTail (depth : Nat) : Nat → Text → Text
  | 0, text => text
  | bound + 1, text =>
      let after := wordTail depth depth text
      if atBreak (pastBlanks after) then after else commandTail depth bound (pastBlanks after)

/-- What is left where the next command starts. -/
def nextText (text : Text) : Text :=
  pastBlanks ((pastBlanks text).dropWhile Byte.isSeparator)

/-- What is left behind the words of a round; before a separator or the end it has no words. -/
def roundTail (depth : Nat) (text : Text) : Text :=
  if atBreak text then text else commandTail depth depth text

/-- What is left behind the last command of a text, given what is left behind the one before. -/
def tailFrom (depth : Nat) : Nat → Text → Option Text → Option Text
  | 0, _, last => last
  | bound + 1, text, last =>
      let after := roundTail depth text
      tailFrom depth bound (nextText after) (if atBreak text then last else some after)

/-- What is left behind the last word of the last command of a script, if it has a command. -/
def lastTail (code : Text) : Option Text :=
  tailFrom (code.length + 1) (code.length + 1) (pastBlanks code) none

/-! ## Blanks -/

theorem Skips.pastBlanks_eq
    {text rest : Text}
    (skips : Skips .plain text rest) :
    pastBlanks text = rest := by
  rw [pastBlanks, skipFrom_of_skips skips .plain 0 rfl]

theorem Skips.unique
    {text rest other : Text}
    (skips : Skips .plain text rest)
    (skipsOther : Skips .plain text other) :
    rest = other :=
  skips.pastBlanks_eq.symm.trans skipsOther.pastBlanks_eq

/-- Behind blanks that reach the end of a text, a longer one has a separator or its end. -/
theorem Skips.trivia_of_append
    {text more rest : Text}
    (trivia : isTrivia more = true)
    (skips : Skips .plain text [])
    (skipsMore : Skips .plain (text ++ Byte.newline :: more) rest) :
    rest <:+ Byte.newline :: more ∧ isTrivia rest = true ∧ atBreak rest = true := by
  obtain ⟨place, skipsPlace, suffix, isTrivia, atBreak⟩ := skips.append_trivia trivia
  rw [skipsMore.unique skipsPlace]
  exact ⟨suffix, isTrivia, atBreak⟩

/-- Where blanks end there are no blanks. -/
theorem Skips.settled
    {stretch : Stretch}
    {text rest : Text}
    (skips : Skips stretch text rest) :
    Skips .plain rest rest := by
  induction skips with
  | ended _ => exact .ended (by simp)
  | commentEnds separator => exact skips_of_atBreak separator
  | comment _ _ inside => exact inside
  | block _ _ inside => exact inside
  | blockEnds _ _ inside => exact inside
  | opens _ _ _ inside => exact inside
  | hash _ _ _ inside => exact inside
  | continues _ _ _ inside => exact inside
  | joins _ _ inside => exact inside
  | space _ _ _ _ inside => exact inside
  | @stops stretch text _ ends =>
      refine .stops rfl ?_
      cases text with
      | nil => cases ends
      | cons byte rest =>
          have notJoined : (Stretch.plain == Stretch.joined) = false := by decide
          simp only [endsStretch, Bool.and_eq_true, notJoined, Bool.false_and] at ends ⊢
          exact ⟨⟨ends.1.1, rfl⟩, ends.2⟩

/-- The next command starts behind blanks, separators and blanks. -/
theorem nextText_of_skips
    {text place rest : Text}
    (skips : Skips .plain text place)
    (skipsNext : Skips .plain (place.dropWhile Byte.isSeparator) rest) :
    nextText text = rest := by
  rw [nextText, skips.pastBlanks_eq, skipsNext.pastBlanks_eq]

/-- Dropping the separators before which a text starts makes it shorter. -/
theorem length_dropWhile_lt
    {text : Text}
    (notEmpty : text ≠ [])
    (isAtBreak : atBreak text = true) :
    (text.dropWhile Byte.isSeparator).length < text.length := by
  cases text with
  | nil =>
      exact absurd rfl notEmpty
  | cons byte rest =>
      have separator : Byte.isSeparator byte = true := isAtBreak
      have shorter := (List.dropWhile_suffix (l := rest) Byte.isSeparator).length_le
      simp only [List.dropWhile_cons, separator, if_true, List.length_cons]
      omega

/-- Trivia without the separators and blanks at its start is trivia. -/
theorem skips_dropWhile_of_trivia
    {text : Text}
    (trivia : isTrivia text = true) :
    ∃ rest, Skips .plain (text.dropWhile Byte.isSeparator) rest ∧
      rest <:+ text ∧ isTrivia rest = true ∧ atBreak rest = true := by
  obtain ⟨rest, skips, isTrivia, atBreak⟩ :=
    skips_of_isTriviaFrom _ .plain _ (Nat.lt_succ_self _) (isTrivia_dropWhile trivia)
  exact ⟨rest, skips, skips.suffix.trans (List.dropWhile_suffix _), isTrivia, atBreak⟩

/-- At the end of a text there is no further command. -/
theorem tailFrom_nil
    (depth bound : Nat)
    (last : Option Text) :
    tailFrom depth bound [] last = last := by
  have nothing : nextText [] = [] := nextText_of_skips (.ended (by simp)) (.ended (by simp))
  induction bound with
  | zero => rfl
  | succ bound inductionHypothesis =>
      have ended : roundTail depth [] = [] := rfl
      rw [tailFrom, ended, nothing]
      exact inductionHypothesis

/-- Behind separators and blanks that reach the end of a text, a longer one has only trivia. -/
theorem skips_dropWhile_append
    {text more : Text}
    (trivia : isTrivia more = true)
    (skips : Skips .plain (text.dropWhile Byte.isSeparator) []) :
    ∃ rest, Skips .plain ((text ++ Byte.newline :: more).dropWhile Byte.isSeparator) rest ∧
      rest <:+ Byte.newline :: more ∧ isTrivia rest = true ∧ atBreak rest = true := by
  rw [List.dropWhile_append]
  split
  · obtain ⟨rest, skipsMore, suffix, found⟩ := skips_dropWhile_of_trivia trivia
    exact ⟨rest, skipsMore, suffix.trans (List.suffix_cons _ _), found⟩
  · exact skips.append_trivia trivia

/-- A blank stretch ends at a suffix of its text, also across lines. -/
theorem skipFrom_suffix
    (acrossLines : Bool)
    (state : BlankState)
    (text : Text)
    (offset : Nat) :
    (skipFrom acrossLines state text offset).cursor.rest <:+ text := by
  fun_induction skipFrom acrossLines state text offset
  all_goals first
    | exact List.suffix_rfl
    | exact List.nil_suffix
    | exact List.IsSuffix.trans ‹_› (List.suffix_cons _ _)
    | exact List.IsSuffix.trans ‹_› ((List.suffix_cons _ _).trans (List.suffix_cons _ _))

/-- A comment that never ends takes up the rest of the text. -/
theorem rest_of_openComment
    (acrossLines : Bool)
    (state : BlankState)
    (text : Text)
    (offset : Nat)
    {start : Nat}
    (opened : (skipFrom acrossLines state text offset).openComment = some start) :
    (skipFrom acrossLines state text offset).cursor.rest = [] := by
  fun_induction skipFrom acrossLines state text offset <;> simp_all

/-- Where only blanks are left, a part leaves them all. -/
theorem partTail_of_blank
    (bound : Nat)
    {text : Text}
    (blank : pastBlanks text = []) :
    partTail (bound + 1) text = text := by
  rw [partTail, blank]

/-- A word goes on where its first part is followed by another one. -/
theorem wordTail_succ
    (depth bound : Nat)
    (text : Text) :
    wordTail (depth + 1) (bound + 2) text =
      if endsWord ⟨partTail (depth + 1) text, 0⟩ then partTail (depth + 1) text
      else wordTail (depth + 1) (bound + 1) (partTail (depth + 1) text) := by
  rw [wordTail]
  cases blank : (pastBlanks (partTail (depth + 1) text)).isEmpty with
  | false =>
      simp
  | true =>
      have left : pastBlanks (partTail (depth + 1) text) = [] := by simpa using blank
      simp only [Bool.or_true, if_true]
      split
      · rfl
      · rw [wordTail, partTail_of_blank depth left]
        simp [blank]

/-! ## Closing bytes -/

/-- A closer that is found is found as well in a longer text. -/
theorem balanced?_append
    {opener closer : UInt8}
    {text inside before after : Text}
    {depth : Nat}
    (found : balanced? opener closer depth text inside = some (before, after))
    (more : Text) :
    balanced? opener closer depth (text ++ more) inside = some (before, after ++ more) := by
  fun_induction balanced? opener closer depth text inside <;> simp_all [balanced?]

theorem balanced?_sized
    {opener closer : UInt8}
    {text inside before after : Text}
    {depth : Nat}
    (found : balanced? opener closer depth text inside = some (before, after)) :
    after <:+ text ∧ before.length + 1 + after.length = inside.length + text.length := by
  induction text generalizing depth inside with
  | nil =>
      cases found
  | cons byte rest inductionHypothesis =>
      have goesOn : ∀ {depth : Nat},
          balanced? opener closer depth rest (byte :: inside) = some (before, after) →
          after <:+ byte :: rest ∧
            before.length + 1 + after.length = inside.length + (byte :: rest).length := by
        intro depth foundLater
        obtain ⟨suffix, sized⟩ := inductionHypothesis foundLater
        simp only [List.length_cons] at sized ⊢
        exact ⟨suffix.trans (List.suffix_cons _ _), by omega⟩
      rw [balanced?.eq_def] at found
      simp only at found
      split at found
      · exact goesOn found
      · split at found
        · split at found
          · cases found
            simp only [List.length_reverse, List.length_cons]
            exact ⟨List.suffix_cons _ _, by omega⟩
          · exact goesOn found
        · exact goesOn found

/-- The first byte decides how a quoted run goes on. -/
theorem quotedRun_cons
    (quote byte : UInt8)
    (rest : Text)
    (offset : Nat)
    (literal : Text) :
    quotedRun quote (byte :: rest) offset literal =
      if byte == Byte.dollar || byte == Byte.openBracket then (literal, ⟨byte :: rest, offset⟩)
      else if byte == Byte.backslash then
        match rest with
        | escaped :: after => quotedRun quote after (offset + 2) (unescape escaped :: literal)
        | [] => (literal, ⟨[], offset + 2⟩)
      else if byte == quote then (literal, ⟨byte :: rest, offset⟩)
      else quotedRun quote rest (offset + 1) (byte :: literal) := by
  cases rest with
  | nil =>
      by_cases isBackslash : byte = Byte.backslash
      · subst isBackslash
        rfl
      · rw [quotedRun.eq_def]
        simp [isBackslash]
  | cons next after =>
      rw [quotedRun.eq_def]
      split
      case h_1 shape =>
        cases shape
      case h_2 shape =>
        cases shape
      case h_3 shape =>
        cases shape
        rfl

/-- A quoted run stops at a suffix of its text. -/
theorem quotedRun_suffix
    (quote : UInt8)
    (text : Text)
    (offset : Nat)
    (literal : Text) :
    (quotedRun quote text offset literal).2.rest <:+ text := by
  fun_induction quotedRun quote text offset literal
  all_goals first
    | exact List.suffix_rfl
    | exact List.nil_suffix
    | exact List.IsSuffix.trans ‹_› (List.suffix_cons _ _)
    | exact List.IsSuffix.trans ‹_› ((List.suffix_cons _ _).trans (List.suffix_cons _ _))

/-- A quoted run that stops inside its text stops there whatever follows. -/
theorem quotedRun_inside
    (quote : UInt8)
    (size : Nat) :
    ∀ (text : Text) (offset : Nat) (literal result : Text) (stop : Cursor),
      text.length < size →
      quotedRun quote text offset literal = (result, stop) →
      stop.rest ≠ [] →
      stop.rest <:+ text ∧ stop.offset + stop.rest.length = offset + text.length ∧
        (∀ more, quotedRun quote (text ++ more) offset literal =
          (result, ⟨stop.rest ++ more, stop.offset⟩)) ∧
        ∀ start initial, (quotedRun quote text start initial).2.rest = stop.rest := by
  induction size with
  | zero =>
      intro text offset literal result stop small
      omega
  | succ size inductionHypothesis =>
      intro text offset literal result stop small ran inside
      cases text with
      | nil =>
          cases ran
          exact absurd rfl inside
      | cons byte rest =>
          simp only [List.length_cons, Nat.add_lt_add_iff_right, List.cons_append] at small ⊢
          simp only [quotedRun_cons] at ran ⊢
          split at ran
          case isTrue nested =>
            cases ran
            simp [nested]
          case isFalse notNested =>
            split at ran
            case isTrue isBackslash =>
              cases rest with
              | nil =>
                  cases ran
                  exact absurd rfl inside
              | cons escaped after =>
                  simp only [List.length_cons] at small
                  obtain ⟨suffix, sized, appended, others⟩ :=
                    inductionHypothesis _ _ _ _ _ (by omega) ran inside
                  simp only [notNested, isBackslash, if_false, if_true, List.cons_append,
                    List.length_cons, Bool.false_eq_true]
                  refine ⟨?_, by omega, appended, fun start initial => others _ _⟩
                  exact suffix.trans ((List.suffix_cons _ _).trans (List.suffix_cons _ _))
            case isFalse notBackslash =>
              split at ran
              case isTrue isQuote =>
                cases ran
                simp [notNested, notBackslash, isQuote]
              case isFalse notQuote =>
                obtain ⟨suffix, sized, appended, others⟩ :=
                  inductionHypothesis _ _ _ _ _ small ran inside
                simp only [notNested, notBackslash, notQuote, if_false, Bool.false_eq_true]
                refine ⟨suffix.trans (List.suffix_cons _ _), by omega, appended, ?_⟩
                exact fun start initial => others _ _

end LittleScript.Source
