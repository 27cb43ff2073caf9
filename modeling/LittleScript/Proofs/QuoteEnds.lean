import LittleScript.Proofs.Prospect

namespace LittleScript.Source

/-!
# Ends of quoted words

The checker and the reader look for the quote that closes a quoted word in different ways.  The
checker passes over escapes and over braces that stand directly behind a dollar, and over every
other byte alone.  The reader takes what is behind a dollar as a part of a word: blanks before it
belong to it, quotes and braces open parts of their own, and a backslash in a bare name is a byte
like any other.  Both go on side by side until a name reaches over the checker's closing quote, or
ends with a backslash before a quote that is escaped for the checker.
-/

/-! ## Escapes -/

/-- Whether a text ends with a backslash that escapes what follows, one that no other escapes. -/
def escapes : Text → Bool
  | [] => false
  | [byte] => byte == Byte.backslash
  | byte :: next :: rest =>
      if byte == Byte.backslash then escapes rest else escapes (next :: rest)

/-- A byte that is no backslash does not escape anything. -/
theorem escapes_cons
    {byte : UInt8}
    (notBackslash : byte ≠ Byte.backslash)
    (text : Text) :
    escapes (byte :: text) = escapes text := by
  cases text <;> simp [escapes, notBackslash]

/-- Behind a text that ends without escaping, escapes are counted anew. -/
theorem escapes_append
    {text : Text}
    (even : escapes text = false)
    (more : Text) :
    escapes (text ++ more) = escapes more := by
  fun_induction escapes text with
  | case1 => rfl
  | case2 byte => exact escapes_cons (by simpa using even) more
  | case3 byte next rest isBackslash inductionHypothesis =>
      rw [List.cons_append, List.cons_append, escapes, if_pos isBackslash]
      exact inductionHypothesis even
  | case4 byte next rest notBackslash inductionHypothesis =>
      rw [List.cons_append, escapes_cons (by simpa using notBackslash)]
      exact inductionHypothesis even

/-- A text does not escape what follows if its last byte is no backslash. -/
theorem escapes_concat
    {last : UInt8}
    (notBackslash : last ≠ Byte.backslash)
    (text : Text) :
    escapes (text ++ [last]) = false := by
  fun_induction escapes text with
  | case1 => simpa [escapes] using notBackslash
  | case2 byte => by_cases isBackslash : byte = Byte.backslash <;> simp [escapes, *]
  | case3 byte next rest isBackslash inductionHypothesis =>
      rw [List.cons_append, List.cons_append, escapes, if_pos isBackslash]
      exact inductionHypothesis
  | case4 byte next rest notBackslash inductionHypothesis =>
      rw [List.cons_append, escapes_cons (by simpa using notBackslash)]
      exact inductionHypothesis

/-! ## The checker -/

/--
What the checker leaves behind the quote that closes a quoted word, once it has passed over some
more bytes.
-/
def closingFrom? (quote : UInt8) : Nat → Text → Option Text
  | _, [] => none
  | passed + 1, _ :: rest => closingFrom? quote passed rest
  | 0, byte :: rest =>
      if byte == Byte.backslash then closingFrom? quote 1 rest
      else if byte == quote then some rest
      else if byte == Byte.openBracket then
        match bracketsEnd? rest with
        | none => none
        | some (inside, _) =>
            if (check inside).isNone then closingFrom? quote (inside.length + 1) rest else none
      else if byte == Byte.dollar && rest.head? == some Byte.openBrace then
        match bracesEnd? rest.tail with
        | none => none
        | some (inside, _) => closingFrom? quote (inside.length + 2) rest
      else closingFrom? quote 0 rest

/-- What the checker leaves behind the closing quote of a quoted word, if it finds one. -/
def closing? (quote : UInt8) (text : Text) : Option Text :=
  closingFrom? quote 0 text

/-- The bytes that were passed over are dropped from the text. -/
theorem closingFrom?_eq
    (quote : UInt8)
    (passed : Nat)
    (text : Text) :
    closingFrom? quote passed text = closing? quote (text.drop passed) := by
  induction passed generalizing text with
  | zero => rfl
  | succ passed inductionHypothesis =>
      cases text with
      | nil => rfl
      | cons byte rest => exact inductionHypothesis rest

/-- The first byte decides how the checker goes on. -/
theorem closing?_cons
    (quote byte : UInt8)
    (rest : Text) :
    closing? quote (byte :: rest) =
      if byte = Byte.backslash then closing? quote rest.tail
      else if byte = quote then some rest
      else if byte = Byte.openBracket then
        (bracketsEnd? rest).bind fun parts =>
          if (check parts.1).isNone then closing? quote parts.2 else none
      else if byte = Byte.dollar ∧ rest.head? = some Byte.openBrace then
        (bracesEnd? rest.tail).bind fun parts => closing? quote parts.2
      else closing? quote rest := by
  rw [closing?, closingFrom?]
  simp only [beq_iff_eq, Bool.and_eq_true, closingFrom?_eq, List.drop_one, List.drop_zero]
  split
  · rfl
  · split
    · rfl
    · split
      · cases closed : bracketsEnd? rest with
        | none => rfl
        | some parts =>
            obtain ⟨inside, behind⟩ := parts
            have dropped : rest.drop (inside.length + 1) = behind := by
              rw [eq_of_bracketsEnd? closed, ← List.drop_drop, List.drop_left]
              rfl
            simp only [dropped]
            rfl
      · split
        · rename_i isDollar
          obtain ⟨more, rfl⟩ := List.head?_eq_some_iff.mp isDollar.2
          rw [List.tail_cons]
          cases closed : bracesEnd? more with
          | none => rfl
          | some parts =>
              obtain ⟨inside, behind⟩ := parts
              have dropped : (Byte.openBrace :: more).drop (inside.length + 2) = behind := by
                rw [eq_of_bracesEnd? closed, List.drop_succ_cons, ← List.drop_drop, List.drop_left]
                rfl
              simp only [dropped]
              rfl
        · rfl

/-- The closing quote itself is left behind. -/
theorem length_closing?_lt
    {quote : UInt8}
    {text behind : Text}
    (closed : closing? quote text = some behind) :
    behind.length < text.length := by
  have upTo : ∀ passed, closingFrom? quote passed text = some behind →
      behind.length < text.length := by
    clear closed
    intro passed closed
    fun_induction closingFrom? quote passed text <;> simp_all <;> omega
  exact upTo 0 closed

/-- A byte with which a quoted word starts. -/
def IsQuote (byte : UInt8) : Prop :=
  byte = Byte.doubleQuote ∨ byte = Byte.singleQuote

/-- A byte over which the checker passes alone. -/
def IsSingle (quote byte : UInt8) : Prop :=
  byte ≠ Byte.backslash ∧ byte ≠ quote ∧ byte ≠ Byte.openBracket ∧ byte ≠ Byte.dollar

/-- The checker passes over a backslash together with the next byte. -/
theorem closing?_backslash
    (quote : UInt8)
    (rest : Text) :
    closing? quote (Byte.backslash :: rest) = closing? quote rest.tail := by
  rw [closing?_cons, if_pos rfl]

/-- It passes over other bytes alone. -/
theorem closing?_single
    {quote byte : UInt8}
    (single : IsSingle quote byte)
    (rest : Text) :
    closing? quote (byte :: rest) = closing? quote rest := by
  obtain ⟨notBackslash, notQuote, notBracket, notDollar⟩ := single
  simp [closing?_cons, notBackslash, notQuote, notBracket, notDollar]

section Quotes

variable {quote : UInt8} (isQuote : IsQuote quote)

include isQuote

/-- A dollar is neither a backslash, nor a quote, nor a bracket. -/
theorem dollar_facts :
    Byte.dollar ≠ Byte.backslash ∧ Byte.dollar ≠ quote ∧ Byte.dollar ≠ Byte.openBracket := by
  rcases isQuote with rfl | rfl <;> decide

/-- The quote itself closes the word. -/
theorem closing?_quote
    (rest : Text) :
    closing? quote (quote :: rest) = some rest := by
  rcases isQuote with rfl | rfl <;> rfl

/-- It passes over braces behind a dollar as a whole. -/
theorem closing?_braces
    {rest inside behind : Text}
    (closed : bracesEnd? rest = some (inside, behind)) :
    closing? quote (Byte.dollar :: Byte.openBrace :: rest) = closing? quote behind := by
  obtain ⟨notBackslash, notQuote, notBracket⟩ := dollar_facts isQuote
  simp [closing?_cons, notBackslash, notQuote, notBracket, closed]

/-- It passes over a dollar alone where no brace follows. -/
theorem closing?_dollar
    {rest : Text}
    (notBrace : rest.head? ≠ some Byte.openBrace) :
    closing? quote (Byte.dollar :: rest) = closing? quote rest := by
  obtain ⟨notBackslash, notQuote, notBracket⟩ := dollar_facts isQuote
  simp [closing?_cons, notBackslash, notQuote, notBracket, notBrace]

end Quotes

/-! ## Bytes that are passed in pairs -/

/-- What is left for the checker behind a text before another one. -/
def passed (text rest : Text) : Text :=
  if escapes text then rest.tail else rest

/-- The checker passes over a text of backslashes and single bytes. -/
theorem closing?_append
    {quote : UInt8}
    {text : Text}
    (singles : ∀ byte ∈ text, byte ≠ Byte.backslash → IsSingle quote byte)
    (rest : Text) :
    closing? quote (text ++ rest) = closing? quote (passed text rest) := by
  fun_induction escapes text with
  | case1 => rfl
  | case2 byte =>
      by_cases isBackslash : byte = Byte.backslash
      · subst isBackslash
        exact closing?_backslash quote rest
      · rw [List.singleton_append, closing?_single (singles byte (by simp) isBackslash)]
        simp [passed, escapes, isBackslash]
  | case3 byte next more isBackslash inductionHypothesis =>
      obtain rfl := eq_of_beq isBackslash
      rw [List.cons_append, closing?_backslash, List.cons_append, List.tail_cons]
      exact inductionHypothesis fun byte member => singles byte (by simp [member])
  | case4 byte next more notBackslash inductionHypothesis =>
      have notBackslash : byte ≠ Byte.backslash := by simpa using notBackslash
      rw [List.cons_append, closing?_single (singles byte (by simp) notBackslash), passed,
        escapes_cons notBackslash]
      exact inductionHypothesis fun byte member => singles byte (List.mem_cons_of_mem _ member)

/-! ## The reader -/

/-- What is left behind the blanks at the front of a text. -/
def behindBlanks (acrossLines : Bool) (text : Text) : Text :=
  (skipBlanks acrossLines (.start text)).cursor.rest

/-- What is left where quoted bytes end: at a dollar, a bracket or the quote, or at the end. -/
def behindRun (quote : UInt8) : Text → Text
  | [] => []
  | byte :: rest =>
      if byte == Byte.dollar || byte == Byte.openBracket then byte :: rest
      else if byte == Byte.backslash then
        match rest with
        | [] => []
        | _ :: after => behindRun quote after
      else if byte == quote then byte :: rest
      else behindRun quote rest

/-- A run of quoted bytes is a front of the text. -/
theorem behindRun_suffix
    (quote : UInt8)
    (text : Text) :
    behindRun quote text <:+ text := by
  fun_induction behindRun quote text
  all_goals first
    | exact List.suffix_rfl
    | exact List.nil_suffix
    | exact List.IsSuffix.trans ‹_› (List.suffix_cons _ _)
    | exact List.IsSuffix.trans ‹_› ((List.suffix_cons _ _).trans (List.suffix_cons _ _))

/-- Quoted bytes end before a dollar, an opening bracket or the quote, if not at the end. -/
theorem behindRun_stops
    (quote : UInt8)
    (text : Text) :
    ∀ byte ∈ (behindRun quote text).head?,
      byte = Byte.dollar ∨ byte = Byte.openBracket ∨ byte = quote := by
  fun_induction behindRun quote text
  case case2 nested =>
    simpa [← or_assoc] using .inl (by simpa using nested)
  all_goals first
    | exact ‹_›
    | simp_all

/--
What the reader leaves behind a quoted part, given what it leaves behind the names in it.  It leaves
nothing to go on with if a name or a bracket is never closed, or the part itself.
-/
def quotedEnd? (nameEnd? : Text → Option Text) (quote : UInt8) : Nat → Text → Option Text
  | 0, text => some text
  | bound + 1, text =>
      match behindRun quote text with
      | [] => none
      | byte :: rest =>
          if byte == Byte.dollar then (nameEnd? rest).bind (quotedEnd? nameEnd? quote bound)
          else if byte == Byte.openBracket then
            (bracketsEnd? rest).bind fun parts => quotedEnd? nameEnd? quote bound parts.2
          else some rest

/-- What the reader leaves behind a part of a word, and so behind a name. -/
def partEnd? (acrossLines : Bool) : Nat → Text → Option Text
  | 0, text => some text
  | bound + 1, text =>
      match behindBlanks acrossLines text with
      | [] => some []
      | byte :: rest =>
          if byte == Byte.dollar then partEnd? acrossLines bound rest
          else if byte == Byte.openBrace then (bracesEnd? rest).map Prod.snd
          else if byte == Byte.openBracket then (bracketsEnd? rest).map Prod.snd
          else if byte == Byte.doubleQuote || byte == Byte.singleQuote then
            quotedEnd? (partEnd? acrossLines bound) byte (bound + 1) rest
          else some ((byte :: rest).dropWhile isBare)

/-- A name that the reader meets behind a dollar, and what it leaves behind the name. -/
structure Name where
  start : Text
  stop : Option Text
  deriving Repr, DecidableEq

/-- The names that the reader meets in a quoted part, one after the other. -/
def names (nameEnd? : Text → Option Text) (quote : UInt8) : Nat → Text → List Name
  | 0, _ => []
  | bound + 1, text =>
      match behindRun quote text with
      | [] => []
      | byte :: rest =>
          if byte == Byte.dollar then
            ⟨rest, nameEnd? rest⟩ :: (nameEnd? rest).elim [] (names nameEnd? quote bound)
          else if byte == Byte.openBracket then
            (bracketsEnd? rest).elim [] fun parts => names nameEnd? quote bound parts.2
          else []

/-- The quote that the checker takes for the closing one stands in a name. -/
def Name.Hides (name : Name) (closing : Option Text) : Prop :=
  ∃ behind ∈ closing, behind.length < name.start.length ∧
    ∀ stop ∈ name.stop, stop.length ≤ behind.length

/-- A name ends with a backslash that escapes, for the checker, the quote that follows. -/
def Name.Splits (name : Name) (quote : UInt8) : Prop :=
  ∃ stop ∈ name.stop, stop.head? = some quote ∧
    escapes (name.start.take (name.start.length - stop.length)) = true

/-- A name that does not keep the reader and the checker from closing the word at one quote. -/
def Name.Clear (name : Name) (quote : UInt8) (closing : Option Text) : Prop :=
  ¬ name.Hides closing ∧ ¬ name.Splits quote

instance (name : Name) (closing : Option Text) : Decidable (name.Hides closing) :=
  inferInstanceAs (Decidable (∃ behind ∈ closing, behind.length < name.start.length ∧
    ∀ stop ∈ name.stop, stop.length ≤ behind.length))

instance (name : Name) (quote : UInt8) : Decidable (name.Splits quote) :=
  inferInstanceAs (Decidable (∃ stop ∈ name.stop, stop.head? = some quote ∧
    escapes (name.start.take (name.start.length - stop.length)) = true))

instance (name : Name) (quote : UInt8) (closing : Option Text) :
    Decidable (name.Clear quote closing) :=
  inferInstanceAs (Decidable (¬ name.Hides closing ∧ ¬ name.Splits quote))

/-- A text without brackets and comments. -/
def Tame (text : Text) : Prop :=
  ∀ byte ∈ text, byte ≠ Byte.hash ∧ byte ≠ Byte.openBracket

instance (text : Text) : Decidable (Tame text) :=
  List.decidableBAll (fun byte => byte ≠ Byte.hash ∧ byte ≠ Byte.openBracket) text

/-- The end of a text without brackets and comments has none either. -/
theorem Tame.of_suffix
    {text rest : Text}
    (tame : Tame text)
    (suffix : rest <:+ text) :
    Tame rest :=
  fun byte member => tame byte (suffix.subset member)

/-- A byte that belongs to a blank stretch before a part. -/
def isLulling (byte : UInt8) : Bool :=
  byte == Byte.backslash || Byte.isSpace byte || Byte.isSeparator byte

/--
Blanks are backslashes and bytes that the checker passes alone, and escape nothing.  A line
continuation and the first line break behind it are a pair for the checker.
-/
theorem skipFrom_of_tame
    (acrossLines : Bool)
    (size : Nat) :
    ∀ (state : BlankState) (text : Text), text.length < size →
      state = .plain ∨ state = .joined → Tame text →
      ∃ blanks rest, text = blanks ++ rest ∧ escapes blanks = false ∧
        (∀ byte ∈ blanks, isLulling byte = true) ∧
        ∀ offset, skipFrom acrossLines state text offset =
          ⟨⟨rest, offset + blanks.length⟩, none⟩ := by
  induction size with
  | zero =>
      intro state text short
      omega
  | succ size inductionHypothesis =>
      intro state text short isOpen tame
      cases text with
      | nil =>
          refine ⟨[], [], rfl, rfl, by simp, fun offset => ?_⟩
          rcases isOpen with rfl | rfl <;> rfl
      | cons byte rest =>
          rw [List.length_cons] at short
          have tameRest := tame.of_suffix (List.suffix_cons byte rest)
          have notHash : (byte == Byte.hash) = false := by simpa using (tame byte (by simp)).1
          have stays : ∃ blanks left, byte :: rest = blanks ++ left ∧ escapes blanks = false ∧
              (∀ other ∈ blanks, isLulling other = true) ∧
              ∀ offset, (⟨⟨byte :: rest, offset⟩, none⟩ : Blanks) =
                ⟨⟨left, offset + blanks.length⟩, none⟩ :=
            ⟨[], byte :: rest, rfl, rfl, by simp, fun offset => rfl⟩
          have skips : ∀ state : BlankState, state = .plain ∨ state = .joined →
              byte ≠ Byte.backslash → isLulling byte = true →
              ∃ blanks left, byte :: rest = blanks ++ left ∧ escapes blanks = false ∧
                (∀ other ∈ blanks, isLulling other = true) ∧
                ∀ offset, skipFrom acrossLines state rest (offset + 1) =
                  ⟨⟨left, offset + blanks.length⟩, none⟩ := by
            intro state isOpen notBackslash lulls
            obtain ⟨blanks, left, rfl, even, lulling, skipped⟩ :=
              inductionHypothesis state rest (by omega) isOpen tameRest
            refine ⟨byte :: blanks, left, rfl, (escapes_cons notBackslash blanks).trans even,
              by simpa [lulls] using lulling, fun offset => ?_⟩
            rw [skipped, List.length_cons, Nat.add_right_comm, Nat.add_assoc]
          simp only [skipFrom_cons _ _ _ _ _ isOpen, notHash, Bool.false_eq_true, if_false]
          split
          case isTrue continues =>
            obtain ⟨isBackslash, breaks⟩ := Bool.and_eq_true_iff.mp continues
            obtain rfl := eq_of_beq isBackslash
            cases rest with
            | nil => cases breaks
            | cons first after =>
                have lineBreak : isLineBreak first = true := breaks
                obtain ⟨firstHash, firstBackslash, separates⟩ := isLineBreak_facts lineBreak
                rw [List.length_cons] at short
                obtain ⟨blanks, left, rfl, even, lulling, skipped⟩ :=
                  inductionHypothesis .joined after (by omega) (.inr rfl)
                    (tameRest.of_suffix (List.suffix_cons first after))
                refine ⟨Byte.backslash :: first :: blanks, left, rfl, even, ?_, fun offset => ?_⟩
                · simpa [isLulling, separates] using lulling
                · rw [skipFrom_cons _ _ _ _ _ (.inr rfl), if_neg (by simpa using firstHash),
                    if_neg (by simp [firstBackslash]), if_pos (by simp [lineBreak]), skipped]
                  simp only [List.length_cons]
                  congr 2
                  omega
          case isFalse plain =>
            split
            case isTrue joins =>
              have lineBreak := (Bool.and_eq_true_iff.mp joins).2
              obtain ⟨-, notBackslash, separates⟩ := isLineBreak_facts lineBreak
              exact skips .joined (.inr rfl) notBackslash (by simp [isLulling, separates])
            case isFalse =>
              split
              case isTrue separates =>
                cases acrossLines with
                | true =>
                    exact skips .plain (.inl rfl) (isSeparator_facts separates).2
                      (by simp [isLulling, separates])
                | false => exact stays
              case isFalse =>
                split
                case isTrue blank =>
                  exact skips .plain (.inl rfl) (isSpace_facts blank).2
                    (by simp [isLulling, blank])
                case isFalse => exact stays

/-- The blanks before a part, at every place of a script. -/
theorem exists_blanks
    (acrossLines : Bool)
    {text : Text}
    (tame : Tame text) :
    ∃ blanks, text = blanks ++ behindBlanks acrossLines text ∧ escapes blanks = false ∧
      (∀ byte ∈ blanks, isLulling byte = true) ∧
      ∀ offset, skipBlanks acrossLines ⟨text, offset⟩ =
        ⟨⟨behindBlanks acrossLines text, offset + blanks.length⟩, none⟩ := by
  obtain ⟨blanks, rest, isText, even, lulling, skipped⟩ :=
    skipFrom_of_tame acrossLines (text.length + 1) .plain text (Nat.lt_succ_self _) (.inl rfl) tame
  have isRest : behindBlanks acrossLines text = rest := by
    rw [behindBlanks, skipBlanks, Cursor.start, skipped]
  rw [isRest]
  exact ⟨blanks, isText, even, lulling, skipped⟩

/-- A stretch of blanks is a front of the text. -/
theorem behindBlanks_suffix
    (acrossLines : Bool)
    {text : Text}
    (tame : Tame text) :
    behindBlanks acrossLines text <:+ text := by
  obtain ⟨blanks, isText, -, -, -⟩ := exists_blanks acrossLines tame
  exact ⟨blanks, isText.symm⟩

/-- Where a word starts there are no blanks. -/
theorem behindBlanks_of_startsWord
    (acrossLines : Bool)
    {byte : UInt8}
    (starts : startsWord byte = true)
    (rest : Text) :
    behindBlanks acrossLines (byte :: rest) = byte :: rest := by
  rw [behindBlanks, skipBlanks, Cursor.start, skipFrom_of_startsWord acrossLines rest 0 starts]

/-- A part in braces ends behind them. -/
theorem partEnd?_openBrace
    (acrossLines : Bool)
    (bound : Nat)
    (rest : Text) :
    partEnd? acrossLines (bound + 1) (Byte.openBrace :: rest) =
      (bracesEnd? rest).map Prod.snd := by
  rw [partEnd?, behindBlanks_of_startsWord acrossLines (by decide)]
  rfl

/-- A quoted part ends behind its quote. -/
theorem partEnd?_quote
    {quote : UInt8}
    (isQuote : IsQuote quote)
    (acrossLines : Bool)
    (bound : Nat)
    (rest : Text) :
    partEnd? acrossLines (bound + 1) (quote :: rest) =
      quotedEnd? (partEnd? acrossLines bound) quote (bound + 1) rest := by
  have starts : startsWord quote = true := by rcases isQuote with rfl | rfl <;> decide
  rw [partEnd?, behindBlanks_of_startsWord acrossLines starts]
  rcases isQuote with rfl | rfl <;> rfl

/-- This is where the reader stops, whatever it has read before. -/
theorem quotedRun_rest
    (quote : UInt8)
    (text : Text)
    (offset : Nat)
    (literal : Text) :
    (quotedRun quote text offset literal).2.rest = behindRun quote text := by
  fun_induction quotedRun quote text offset literal
  case case2 =>
    have facts : Byte.backslash ≠ Byte.dollar ∧ Byte.backslash ≠ Byte.openBracket := by decide
    simp [behindRun.eq_def, facts]
  all_goals rw [behindRun.eq_def]
  all_goals simp_all

/-! ## Side by side -/

/-- The checker closes the quoted word before a rest of the text. -/
def Hidden (quote : UInt8) (text rest : Text) : Prop :=
  ∃ behind, closing? quote text = some behind ∧ rest.length ≤ behind.length

/-- What closes before a text closes before an end of it. -/
theorem Hidden.mono
    {quote : UInt8}
    {text rest less : Text}
    (hidden : Hidden quote text rest)
    (fewer : less.length ≤ rest.length) :
    Hidden quote text less := by
  obtain ⟨behind, closed, atLeast⟩ := hidden
  exact ⟨behind, closed, Nat.le_trans fewer atLeast⟩

/-- What closes alike is hidden alike. -/
theorem Hidden.congr
    {quote : UInt8}
    {text other rest : Text}
    (hidden : Hidden quote other rest)
    (same : closing? quote text = closing? quote other) :
    Hidden quote text rest := by
  rwa [Hidden, same]

/-- A closer at a greater depth closes what has been opened last, then one less is open. -/
theorem balanced?_deeper
    {opener closer : UInt8}
    {text : Text}
    (depth deeper : Nat)
    (inside other : Text)
    {before after : Text}
    (found : balanced? opener closer (depth + 1 + deeper) text inside = some (before, after)) :
    ∃ within behind rest, balanced? opener closer deeper text other = some (within, behind) ∧
      balanced? opener closer depth behind rest = some (before, after) := by
  induction text generalizing deeper inside other with
  | nil => cases found
  | cons byte text inductionHypothesis =>
      rw [balanced?.eq_def] at found ⊢
      simp only at found ⊢
      split at found
      case isTrue opens =>
        rw [if_pos opens]
        exact inductionHypothesis (deeper + 1) _ _ found
      case isFalse opensNot =>
        rw [if_neg opensNot]
        split at found
        case isTrue closes =>
          rw [if_pos closes]
          cases deeper with
          | zero => exact ⟨_, text, _, rfl, found⟩
          | succ deeper => exact inductionHypothesis deeper _ _ found
        case isFalse closesNot =>
          rw [if_neg closesNot]
          exact inductionHypothesis deeper _ _ found

/-- The byte at the front is what closes a text, or it is closed further on. -/
theorem balanced?_next
    {opener closer byte : UInt8}
    {depth : Nat}
    {rest inside before behind : Text}
    (found : balanced? opener closer depth (byte :: rest) inside = some (before, behind)) :
    behind = rest ∨
      ∃ other within, balanced? opener closer other rest within = some (before, behind) := by
  rw [balanced?.eq_def] at found
  simp only at found
  split at found
  · exact .inr ⟨_, _, found⟩
  · split at found
    · split at found
      · cases found
        exact .inl rfl
      · exact .inr ⟨_, _, found⟩
    · exact .inr ⟨_, _, found⟩

/-- In quoted bytes that its own quote ends the checker does not close the word. -/
theorem closing?_behindOwnRun
    (quote : UInt8)
    (text : Text) :
    closing? quote text = closing? quote (behindRun quote text) := by
  fun_induction behindRun quote text with
  | case1 => rfl
  | case2 byte rest nested => rfl
  | case3 byte stops isBackslash =>
      obtain rfl := eq_of_beq isBackslash
      exact closing?_backslash quote []
  | case4 byte stops isBackslash next after inductionHypothesis =>
      obtain rfl := eq_of_beq isBackslash
      exact (closing?_backslash quote (next :: after)).trans inductionHypothesis
  | case5 byte rest stops notBackslash isOwn => rfl
  | case6 byte rest stops notBackslash notOwn inductionHypothesis =>
      simp only [Bool.or_eq_true, beq_iff_eq, not_or] at stops notBackslash notOwn
      exact (closing?_single ⟨notBackslash, notOwn, stops.2, stops.1⟩ rest).trans
        inductionHypothesis

section Quotes

variable {quote : UInt8} (isQuote : IsQuote quote)

include isQuote

/-- A byte of a blank stretch or of a bare name is passed alone if it is no backslash. -/
theorem isSingle_of_blank_or_bare
    {byte : UInt8}
    (blankOrBare : isLulling byte = true ∨ isBare byte = true)
    (notBackslash : byte ≠ Byte.backslash) :
    IsSingle quote byte := by
  have facts : ∀ byte : UInt8, isLulling byte = true ∨ isBare byte = true →
      byte ≠ Byte.doubleQuote ∧ byte ≠ Byte.singleQuote ∧ byte ≠ Byte.openBracket ∧
        byte ≠ Byte.dollar := by
    apply Byte.of_codes
    decide +kernel
  obtain ⟨notDouble, notSingle, notBracket, notDollar⟩ := facts byte blankOrBare
  refine ⟨notBackslash, ?_, notBracket, notDollar⟩
  rcases isQuote with rfl | rfl <;> assumption

/-- The checker comes out of braces where they end, unless it closes the word in them. -/
theorem closing?_balanced
    (size : Nat) :
    ∀ (depth : Nat) (text inside before behind : Text), text.length < size → Tame text →
      balanced? Byte.openBrace Byte.closeBrace depth text inside = some (before, behind) →
      Hidden quote text behind ∨ closing? quote text = closing? quote behind := by
  induction size with
  | zero =>
      intro depth text inside before behind short
      omega
  | succ size inductionHypothesis =>
      intro depth text inside before behind short tame found
      cases text with
      | nil => cases found
      | cons byte rest =>
          have tameRest := tame.of_suffix (List.suffix_cons byte rest)
          simp only [List.length_cons, Nat.add_lt_add_iff_right] at short
          have goesOn : ∀ {depth : Nat} {shorter inside : Text}, shorter <:+ rest →
              closing? quote (byte :: rest) = closing? quote shorter →
              balanced? Byte.openBrace Byte.closeBrace depth shorter inside =
                some (before, behind) →
              Hidden quote (byte :: rest) behind ∨
                closing? quote (byte :: rest) = closing? quote behind := by
            intro depth shorter inside suffix same found
            have fewer := suffix.length_le
            rw [same]
            rcases inductionHypothesis depth shorter inside before behind (by omega)
              (tameRest.of_suffix suffix) found with hidden | comes
            · exact .inl (hidden.congr same)
            · exact .inr comes
          have other : byte ≠ Byte.openBrace → byte ≠ Byte.closeBrace →
              balanced? Byte.openBrace Byte.closeBrace depth rest (byte :: inside) =
                some (before, behind) := by
            intro opensNot closesNot
            rw [balanced?.eq_def] at found
            simpa [opensNot, closesNot] using found
          by_cases isBackslash : byte = Byte.backslash
          · subst isBackslash
            replace found := other (by decide) (by decide)
            cases rest with
            | nil => cases found
            | cons next rest =>
                have pair := closing?_backslash quote (next :: rest)
                rcases balanced?_next found with rfl | ⟨_, _, further⟩
                · exact .inr pair
                · exact goesOn (List.suffix_cons next rest) pair further
          by_cases closesWord : byte = quote
          · subst closesWord
            have notBrace : byte ≠ Byte.openBrace ∧ byte ≠ Byte.closeBrace := by
              rcases isQuote with rfl | rfl <;> decide
            have suffix := (balanced?_sized (other notBrace.1 notBrace.2)).1
            exact .inl ⟨rest, closing?_quote isQuote rest, suffix.length_le⟩
          by_cases isDollar : byte = Byte.dollar
          · subst isDollar
            replace found := other (by decide) (by decide)
            by_cases isBrace : rest.head? = some Byte.openBrace
            · obtain ⟨more, rfl⟩ := List.head?_eq_some_iff.mp isBrace
              obtain ⟨within, after, passed, closed, further⟩ :=
                balanced?_deeper depth 0 _ [] ((balanced?.eq_def ..).symm.trans found)
              have suffix := (balanced?_sized closed).1
              exact goesOn (suffix.trans (List.suffix_cons _ _)) (closing?_braces isQuote closed)
                further
            · exact goesOn List.suffix_rfl (closing?_dollar isQuote isBrace) found
          have single : IsSingle quote byte :=
            ⟨isBackslash, closesWord, (tame byte (by simp)).2, isDollar⟩
          have alone := closing?_single single rest
          rcases balanced?_next found with rfl | ⟨_, _, further⟩
          · exact .inr alone
          · exact goesOn List.suffix_rfl alone further

/-- The checker comes to where quoted bytes end, unless it closes the word in them. -/
theorem closing?_behindRun
    (own : UInt8)
    (text : Text) :
    Hidden quote text (behindRun own text) ∨
      closing? quote text = closing? quote (behindRun own text) := by
  fun_induction behindRun own text with
  | case1 => exact .inr rfl
  | case2 byte rest nested => exact .inr rfl
  | case3 byte stops isBackslash =>
      obtain rfl := eq_of_beq isBackslash
      exact .inr (closing?_backslash quote [])
  | case4 byte stops isBackslash next after inductionHypothesis =>
      obtain rfl := eq_of_beq isBackslash
      have pair := closing?_backslash quote (next :: after)
      rw [pair]
      rcases inductionHypothesis with hidden | comes
      · exact .inl (hidden.congr pair)
      · exact .inr comes
  | case5 byte rest stops notBackslash isOwn => exact .inr rfl
  | case6 byte rest stops notBackslash notOwn inductionHypothesis =>
      simp only [Bool.or_eq_true, beq_iff_eq, not_or] at stops notBackslash
      by_cases closesWord : byte = quote
      · subst closesWord
        exact .inl ⟨rest, closing?_quote isQuote rest, (behindRun_suffix own rest).length_le⟩
      · have alone := closing?_single ⟨notBackslash, closesWord, stops.2, stops.1⟩ rest
        rw [alone]
        rcases inductionHypothesis with hidden | comes
        · exact .inl (hidden.congr alone)
        · exact .inr comes

end Quotes

/--
`Abreast text checked`: the checker stands where the reader does, or has passed over the next byte,
as one that is escaped.
-/
inductive Abreast : Text → Text → Prop where
  | same {text : Text} : Abreast text text
  | ahead {byte : UInt8} {text : Text} : byte ≠ Byte.backslash → Abreast (byte :: text) text

/-- What is left for the checker is an end of the text. -/
theorem Abreast.suffix
    {text checked : Text}
    (abreast : Abreast text checked) :
    checked <:+ text := by
  cases abreast with
  | same => exact List.suffix_rfl
  | ahead _ => exact List.suffix_cons _ _

/-- Behind a text the checker is abreast if no backslash follows one that escapes. -/
theorem abreast_passed
    {text rest : Text}
    (escaped : escapes text = true → rest.head? ≠ some Byte.backslash) :
    Abreast rest (passed text rest) := by
  rw [passed]
  split
  case isTrue isEscaped =>
    cases rest with
    | nil => exact .same
    | cons byte rest => exact .ahead (by simpa using escaped isEscaped)
  case isFalse => exact .same

/-- Quoted bytes end before a byte that is no backslash, or go on behind it. -/
theorem behindRun_cons
    (own : UInt8)
    {byte : UInt8}
    (notBackslash : byte ≠ Byte.backslash)
    (rest : Text) :
    behindRun own (byte :: rest) = byte :: rest ∨
      behindRun own (byte :: rest) = behindRun own rest := by
  rw [behindRun.eq_def own (byte :: rest)]
  simp only [beq_iff_eq, notBackslash, if_false]
  split
  · exact .inl rfl
  · split
    · exact .inl rfl
    · exact .inr rfl

/-- The checker is abreast of quoted bytes where they end, unless it closes the word in them. -/
theorem abreast_behindRun
    {quote : UInt8}
    (isQuote : IsQuote quote)
    (own : UInt8)
    {text checked : Text}
    (abreast : Abreast text checked) :
    Hidden quote checked (behindRun own text) ∨
      ∃ later, Abreast (behindRun own text) later ∧
        closing? quote checked = closing? quote later := by
  have passes : behindRun own text = behindRun own checked →
      Hidden quote checked (behindRun own text) ∨
        ∃ later, Abreast (behindRun own text) later ∧
          closing? quote checked = closing? quote later := by
    intro same
    rw [same]
    exact (closing?_behindRun isQuote own checked).imp_right fun comes => ⟨_, .same, comes⟩
  cases abreast with
  | same => exact passes rfl
  | ahead notBackslash =>
      rcases behindRun_cons own notBackslash checked with ends | goesOn
      · rw [ends]
        exact .inr ⟨checked, .ahead notBackslash, rfl⟩
      · exact passes goesOn

/-- In bytes that its own quote ends the checker does not close the word before them. -/
theorem abreast_behindOwnRun
    {quote : UInt8}
    {text checked : Text}
    (abreast : Abreast text checked)
    (isExact : text.head? = some quote → checked = text) :
    ∃ later, Abreast (behindRun quote text) later ∧
      ((behindRun quote text).head? = some quote → later = behindRun quote text) ∧
      closing? quote checked = closing? quote later := by
  cases abreast with
  | same => exact ⟨_, .same, fun _ => rfl, closing?_behindOwnRun quote text⟩
  | ahead notBackslash =>
      rcases behindRun_cons quote notBackslash checked with ends | goesOn
      · rw [ends]
        exact ⟨checked, .ahead notBackslash, isExact, rfl⟩
      · rw [goesOn]
        exact ⟨_, .same, fun _ => rfl, closing?_behindOwnRun quote checked⟩

/--
The reader goes from a text to where a name stops, and the checker closes the word in between or
comes along, but for a byte that is escaped for it.
-/
def Crosses (quote : UInt8) (text checked stop : Text) : Prop :=
  ∃ name, text = name ++ stop ∧ (escapes name = true → stop.head? ≠ some Byte.backslash) ∧
    (Hidden quote checked stop ∨ closing? quote checked = closing? quote (passed name stop))

/-- A name stops behind where it starts. -/
theorem Crosses.length_le
    {quote : UInt8}
    {text checked stop : Text}
    (crosses : Crosses quote text checked stop) :
    stop.length ≤ text.length := by
  obtain ⟨name, rfl, -⟩ := crosses
  simp

/-- A checker that comes to where another one stands crosses what that one does. -/
theorem Crosses.congr
    {quote : UInt8}
    {text checked other stop : Text}
    (crosses : Crosses quote text other stop)
    (same : closing? quote checked = closing? quote other) :
    Crosses quote text checked stop := by
  obtain ⟨name, isText, escaped, hidden | comes⟩ := crosses
  · exact ⟨name, isText, escaped, .inl (hidden.congr same)⟩
  · exact ⟨name, isText, escaped, .inr (same.trans comes)⟩

/-- What escapes nothing may stand before a name. -/
theorem Crosses.append
    {quote : UInt8}
    {text checked stop : Text}
    (crosses : Crosses quote text checked stop)
    (blanks : Text)
    (even : escapes blanks = false) :
    Crosses quote (blanks ++ text) checked stop := by
  obtain ⟨name, rfl, escaped, crossed⟩ := crosses
  refine ⟨blanks ++ name, (List.append_assoc ..).symm, ?_, ?_⟩
  · rwa [escapes_append even]
  · rwa [passed, escapes_append even]

/-- A name that ends with a byte which is no backslash. -/
theorem crosses_concat
    {quote last : UInt8}
    (notBackslash : last ≠ Byte.backslash)
    (name : Text)
    {checked stop : Text}
    (crossed : Hidden quote checked stop ∨ closing? quote checked = closing? quote stop) :
    Crosses quote (name ++ last :: stop) checked stop := by
  have even := escapes_concat notBackslash name
  refine ⟨name ++ [last], by simp, by simp [even], ?_⟩
  rwa [passed, even]

/-- The checker crosses the parts that are read with a bound. -/
def CrossesParts (quote : UInt8) (acrossLines : Bool) (bound : Nat) : Prop :=
  ∀ text stop, text.length < bound → Tame text → partEnd? acrossLines bound text = some stop →
    Crosses quote text text stop

section Names

variable {quote : UInt8} (isQuote : IsQuote quote) {acrossLines : Bool} {bound : Nat}
  (parts : CrossesParts quote acrossLines bound)

include isQuote parts

/-- The checker crosses the name behind a dollar. -/
theorem crosses_dollar
    {rest stop checked : Text}
    (short : rest.length < bound)
    (tame : Tame rest)
    (ends : partEnd? acrossLines bound rest = some stop)
    (abreast : Abreast (Byte.dollar :: rest) checked) :
    Crosses quote rest checked stop := by
  have crosses := parts rest stop short tame ends
  cases abreast with
  | ahead _ => exact crosses
  | same =>
      by_cases isBrace : rest.head? = some Byte.openBrace
      · obtain ⟨more, rfl⟩ := List.head?_eq_some_iff.mp isBrace
        obtain ⟨less, rfl⟩ : ∃ less, bound = less + 1 := ⟨bound - 1, by omega⟩
        rw [partEnd?_openBrace] at ends
        obtain ⟨⟨inside, behind⟩, closed, rfl⟩ := Option.map_eq_some_iff.mp ends
        have jumps := closing?_braces isQuote closed
        rw [eq_of_bracesEnd? closed] at jumps ⊢
        exact crosses_concat (by decide) (Byte.openBrace :: inside) (.inr jumps)
      · exact crosses.congr (closing?_dollar isQuote isBrace)

/-- The checker comes out of a quoted part where it ends, unless it closes the word in it. -/
theorem crosses_quoted
    {own : UInt8}
    (isOwn : IsQuote own)
    (rounds : Nat) :
    ∀ text checked stop : Text, text.length < rounds → text.length ≤ bound → Tame text →
      Abreast text checked →
      quotedEnd? (partEnd? acrossLines bound) own rounds text = some stop →
      (∃ inside, text = inside ++ own :: stop) ∧
        (Hidden quote checked stop ∨ closing? quote checked = closing? quote stop) := by
  induction rounds with
  | zero =>
      intro text checked stop short
      omega
  | succ rounds inductionHypothesis =>
      intro text checked stop short fits tame abreast ends
      have stopsAt := abreast_behindRun isQuote own abreast
      have suffix := behindRun_suffix own text
      have stops := behindRun_stops own text
      rw [quotedEnd?] at ends
      generalize behindRun own text = left at stopsAt suffix stops ends
      cases left with
      | nil => cases ends
      | cons byte rest =>
          simp only at ends
          have tameLeft := tame.of_suffix suffix
          have tameRest := tameLeft.of_suffix (List.suffix_cons byte rest)
          have shorter : rest.length + 1 ≤ text.length := suffix.length_le
          obtain ⟨before, isText⟩ := suffix
          have notBracket : byte ≠ Byte.openBracket := (tameLeft byte (by simp)).2
          split at ends
          case isTrue isDollar =>
            obtain rfl := eq_of_beq isDollar
            obtain ⟨between, named, goesOn⟩ := Option.bind_eq_some_iff.mp ends
            have isName := parts rest between (by omega) tameRest named
            have atMost := isName.length_le
            obtain ⟨name, isRest, escaped, -⟩ := isName
            have tameBetween := tameRest.of_suffix ⟨name, isRest.symm⟩
            have further : ∀ later, Abreast between later →
                (∃ inside, between = inside ++ own :: stop) ∧
                  (Hidden quote later stop ∨ closing? quote later = closing? quote stop) :=
              fun later abreastLater => inductionHypothesis between later stop (by omega)
                (by omega) tameBetween abreastLater goesOn
            obtain ⟨⟨inside, isBetween⟩, -⟩ := further between .same
            have fewer : stop.length ≤ between.length := by
              rw [isBetween, List.length_append, List.length_cons]
              omega
            refine ⟨⟨before ++ Byte.dollar :: (name ++ inside), ?_⟩, ?_⟩
            · rw [← isText, isRest, isBetween]
              simp
            · rcases stopsAt with hidden | ⟨later, abreastLater, comes⟩
              · exact .inl (hidden.mono (by rw [List.length_cons]; omega))
              · obtain ⟨other, -, escapedOther, hidden | comesOn⟩ :=
                  crosses_dollar isQuote parts (by omega) tameRest named abreastLater
                · exact .inl ((hidden.mono fewer).congr comes)
                · rw [comes, comesOn]
                  rcases (further _ (abreast_passed escapedOther)).2 with hidden | comesThere
                  · exact .inl (hidden.congr (comes.trans comesOn))
                  · exact .inr comesThere
          case isFalse notDollar =>
            rw [if_neg (by simpa using notBracket)] at ends
            obtain rfl : rest = stop := Option.some.inj ends
            obtain rfl : byte = own := by
              rcases stops byte rfl with isDollar | isBracket | same
              · exact absurd isDollar (by simpa using notDollar)
              · exact absurd isBracket notBracket
              · exact same
            refine ⟨⟨before, isText.symm⟩, ?_⟩
            rcases stopsAt with hidden | ⟨later, abreastLater, comes⟩
            · exact .inl (hidden.mono (Nat.le_succ _))
            · cases abreastLater with
              | ahead _ => exact .inr comes
              | same =>
                  by_cases closesWord : byte = quote
                  · subst closesWord
                    exact .inl ⟨rest, comes.trans (closing?_quote isQuote rest), Nat.le_refl _⟩
                  · have notBackslash : byte ≠ Byte.backslash := by
                      rcases isOwn with rfl | rfl <;> decide
                    exact .inr (comes.trans (closing?_single
                      ⟨notBackslash, closesWord, notBracket, by simpa using notDollar⟩ rest))

/-- The reader takes at least the quote that closes a quoted part. -/
theorem length_quotedEnd?_lt
    {rounds : Nat}
    {text behind : Text}
    (short : text.length < rounds)
    (fits : text.length ≤ bound)
    (tame : Tame text)
    (ends : quotedEnd? (partEnd? acrossLines bound) quote rounds text = some behind) :
    behind.length < text.length := by
  obtain ⟨⟨inside, isText⟩, -⟩ :=
    crosses_quoted isQuote parts isQuote rounds text text behind short fits tame .same ends
  rw [isText, List.length_append, List.length_cons]
  omega

/-- The checker crosses a quoted part in a name. -/
theorem crosses_opened
    {own : UInt8}
    (isOwn : IsQuote own)
    {rounds : Nat}
    {rest stop : Text}
    (short : rest.length < rounds)
    (fits : rest.length ≤ bound)
    (tame : Tame (own :: rest))
    (notDollar : own ≠ Byte.dollar)
    (ends : quotedEnd? (partEnd? acrossLines bound) own rounds rest = some stop) :
    Crosses quote (own :: rest) (own :: rest) stop := by
  have notBackslash : own ≠ Byte.backslash := by rcases isOwn with rfl | rfl <;> decide
  obtain ⟨⟨inside, isRest⟩, crossed⟩ := crosses_quoted isQuote parts isOwn rounds rest rest stop
    short fits (tame.of_suffix (List.suffix_cons own rest)) .same ends
  have whole : Hidden quote (own :: rest) stop ∨
      closing? quote (own :: rest) = closing? quote stop := by
    by_cases closesWord : own = quote
    · subst closesWord
      refine .inl ⟨rest, closing?_quote isQuote rest, ?_⟩
      rw [isRest, List.length_append, List.length_cons]
      omega
    · have alone := closing?_single
        ⟨notBackslash, closesWord, (tame own (by simp)).2, notDollar⟩ rest
      rw [alone]
      exact crossed.imp_left fun hidden => hidden.congr alone
  rw [isRest] at whole ⊢
  exact crosses_concat notBackslash (own :: inside) whole

end Names

section Parts

variable {quote : UInt8} (isQuote : IsQuote quote)

include isQuote

/-- The checker crosses a part in braces. -/
theorem crosses_braces
    {rest stop : Text}
    (tame : Tame rest)
    (ends : (bracesEnd? rest).map Prod.snd = some stop) :
    Crosses quote (Byte.openBrace :: rest) (Byte.openBrace :: rest) stop := by
  obtain ⟨⟨inside, behind⟩, closed, rfl⟩ := Option.map_eq_some_iff.mp ends
  have notQuote : Byte.openBrace ≠ quote := by rcases isQuote with rfl | rfl <;> decide
  have alone := closing?_single ⟨by decide, notQuote, by decide, by decide⟩ rest
  have crossed := closing?_balanced isQuote (rest.length + 1) 0 rest [] inside behind
    (Nat.lt_succ_self _) tame closed
  have whole : Hidden quote (Byte.openBrace :: rest) behind ∨
      closing? quote (Byte.openBrace :: rest) = closing? quote behind := by
    rw [alone]
    exact crossed.imp_left fun hidden => hidden.congr alone
  rw [eq_of_bracesEnd? closed] at whole ⊢
  exact crosses_concat (by decide) (Byte.openBrace :: inside) whole

/-- The checker crosses a bare name, but for a byte that is escaped behind it. -/
theorem crosses_bare
    (text : Text) :
    Crosses quote text text (text.dropWhile isBare) := by
  have split := List.takeWhile_append_dropWhile (p := isBare) (l := text)
  have singles : ∀ byte ∈ text.takeWhile isBare, byte ≠ Byte.backslash → IsSingle quote byte :=
    fun byte member => isSingle_of_blank_or_bare isQuote
      (.inr (List.all_eq_true.mp List.all_takeWhile byte member))
  have comes := closing?_append singles (text.dropWhile isBare)
  rw [split] at comes
  refine ⟨_, split.symm, fun _ isBackslash => ?_, .inr comes⟩
  have notBare := List.head?_dropWhile_not isBare text
  rw [isBackslash] at notBare
  exact absurd notBare (by decide)

/-- The checker crosses the blanks before a part. -/
theorem crosses_behindBlanks
    (acrossLines : Bool)
    {text stop : Text}
    (tame : Tame text)
    (crosses : Crosses quote (behindBlanks acrossLines text) (behindBlanks acrossLines text)
      stop) :
    Crosses quote text text stop := by
  obtain ⟨blanks, isText, even, lulling, -⟩ := exists_blanks acrossLines tame
  have comes := closing?_append
    (fun byte member => isSingle_of_blank_or_bare isQuote (.inl (lulling byte member)))
    (behindBlanks acrossLines text)
  rw [← isText, passed, even] at comes
  have longer := (crosses.congr comes).append blanks even
  rwa [← isText] at longer

/-- The checker crosses every part. -/
theorem crosses_part
    (acrossLines : Bool)
    (bound : Nat) :
    CrossesParts quote acrossLines bound := by
  induction bound with
  | zero =>
      intro text stop short
      omega
  | succ bound inductionHypothesis =>
      intro text stop short tame ends
      have suffix := behindBlanks_suffix acrossLines tame
      have tameLeft := tame.of_suffix suffix
      have shorter := suffix.length_le
      refine crosses_behindBlanks isQuote acrossLines tame ?_
      rw [partEnd?] at ends
      generalize behindBlanks acrossLines text = left at ends tameLeft shorter
      cases left with
      | nil =>
          obtain rfl : [] = stop := Option.some.inj ends
          exact ⟨[], rfl, by simp [escapes], .inr rfl⟩
      | cons byte rest =>
          rw [List.length_cons] at shorter
          have tameRest := tameLeft.of_suffix (List.suffix_cons byte rest)
          have notBracket : byte ≠ Byte.openBracket := (tameLeft byte (by simp)).2
          simp only [beq_iff_eq, Bool.or_eq_true, notBracket, if_false] at ends
          split at ends
          case isTrue isDollar =>
            subst isDollar
            exact (crosses_dollar isQuote inductionHypothesis (by omega) tameRest ends .same).append
              [Byte.dollar] rfl
          case isFalse notDollar =>
            split at ends
            case isTrue isBrace =>
              subst isBrace
              exact crosses_braces isQuote tameRest ends
            case isFalse =>
              split at ends
              case isTrue isOwn =>
                exact crosses_opened isQuote inductionHypothesis isOwn (by omega) (by omega)
                  tameLeft notDollar ends
              case isFalse =>
                obtain rfl := Option.some.inj ends
                exact crosses_bare isQuote (byte :: rest)

end Parts

/-! ## Where both agree -/

/-- The reader closes a quoted part at its quote. -/
theorem quotedEnd?_quote
    {quote : UInt8}
    (isQuote : IsQuote quote)
    {nameEnd? : Text → Option Text}
    {rounds : Nat}
    (positive : 0 < rounds)
    (rest : Text) :
    quotedEnd? nameEnd? quote rounds (quote :: rest) = some rest := by
  cases rounds with
  | zero => cases positive
  | succ rounds =>
      have stays : behindRun quote (quote :: rest) = quote :: rest := by
        rw [behindRun.eq_def]
        rcases isQuote with rfl | rfl <;> rfl
      rw [quotedEnd?, stays]
      rcases isQuote with rfl | rfl <;> rfl

/-- The checker closes a quoted word behind a dollar, if it does, behind the next byte at least. -/
theorem length_closing?_of_dollar
    {quote : UInt8}
    (isQuote : IsQuote quote)
    {rest later behind : Text}
    (abreast : Abreast (Byte.dollar :: rest) later)
    (closed : closing? quote later = some behind) :
    behind.length < rest.length := by
  cases abreast with
  | ahead _ => exact length_closing?_lt closed
  | same =>
      by_cases isBrace : rest.head? = some Byte.openBrace
      · obtain ⟨more, rfl⟩ := List.head?_eq_some_iff.mp isBrace
        obtain ⟨notBackslash, notQuote, notBracket⟩ := dollar_facts isQuote
        rw [closing?_cons, if_neg notBackslash, if_neg notQuote, if_neg notBracket,
          if_pos ⟨rfl, rfl⟩, List.tail_cons] at closed
        obtain ⟨⟨inside, after⟩, braces, closed⟩ := Option.bind_eq_some_iff.mp closed
        have sized := length_of_bracesEnd? braces
        have shorter : behind.length < after.length := length_closing?_lt closed
        rw [List.length_cons]
        omega
      · rw [closing?_dollar isQuote isBrace] at closed
        exact length_closing?_lt closed

/-- A name in which the checker closes the word is not clear. -/
theorem not_clear_of_closed
    {quote : UInt8}
    (isQuote : IsQuote quote)
    {rest later behind : Text}
    {stop? : Option Text}
    (abreast : Abreast (Byte.dollar :: rest) later)
    (closed : closing? quote later = some behind)
    (atLeast : ∀ stop ∈ stop?, stop.length ≤ behind.length) :
    ¬ Name.Clear ⟨rest, stop?⟩ quote (closing? quote later) :=
  fun clear =>
    clear.1 ⟨behind, closed, length_closing?_of_dollar isQuote abreast closed, atLeast⟩

/-- A name of which the checker comes out is clear, unless it splits an escaped quote. -/
theorem clear_of_passed
    {quote : UInt8}
    {name stop : Text}
    (unsplit : escapes name = true → stop.head? ≠ some quote) :
    Name.Clear ⟨name ++ stop, some stop⟩ quote (closing? quote (passed name stop)) := by
  constructor
  · rintro ⟨behind, closed, -, within⟩
    have shorter := length_closing?_lt closed
    have atLeast := within stop rfl
    have atMost : (passed name stop).length ≤ stop.length := by
      rw [passed]
      split <;> simp
    omega
  · rintro ⟨_, isStop, isHead, isEscaped⟩
    obtain rfl := Option.some.inj isStop
    have isName : (name ++ stop).take ((name ++ stop).length - stop.length) = name := by simp
    exact unsplit (isName ▸ isEscaped) isHead

section Agreement

variable {quote : UInt8} (isQuote : IsQuote quote) {nameEnd? : Text → Option Text} {rounds : Nat}

include isQuote

/-- Where a name has no end the reader finds no closing quote, and the checker none outside it. -/
theorem endless_agrees_iff
    {rest later : Text}
    (abreast : Abreast (Byte.dollar :: rest) later) :
    none = closing? quote later ↔ Name.Clear ⟨rest, none⟩ quote (closing? quote later) := by
  cases closed : closing? quote later with
  | none => exact iff_of_true rfl ⟨by simp [Name.Hides], by simp [Name.Splits]⟩
  | some behind =>
      refine iff_of_false (fun same => nomatch same) ?_
      rw [← closed]
      exact not_clear_of_closed isQuote abreast closed (by simp)

/--
Behind a name the reader and the checker agree if they do from there on and the name is clear.  A
quote in the name is behind the reader, and an escaped quote behind the name closes the word for it.
-/
theorem named_agrees_iff
    {name stop later : Text}
    (positive : 0 < rounds)
    (abreast : Abreast (Byte.dollar :: (name ++ stop)) later)
    (escaped : escapes name = true → stop.head? ≠ some Byte.backslash)
    (crossed : Hidden quote later stop ∨ closing? quote later = closing? quote (passed name stop))
    (shortens : ∀ behind, quotedEnd? nameEnd? quote rounds stop = some behind →
      behind.length < stop.length)
    (agrees : Abreast stop (passed name stop) →
      (stop.head? = some quote → passed name stop = stop) →
      (quotedEnd? nameEnd? quote rounds stop = closing? quote (passed name stop) ↔
        ∀ other ∈ names nameEnd? quote rounds stop,
          other.Clear quote (closing? quote (passed name stop)))) :
    quotedEnd? nameEnd? quote rounds stop = closing? quote later ↔
      Name.Clear ⟨name ++ stop, some stop⟩ quote (closing? quote later) ∧
        ∀ other ∈ names nameEnd? quote rounds stop, other.Clear quote (closing? quote later) := by
  rcases crossed with ⟨behind, closed, atLeast⟩ | comesOn
  · refine iff_of_false (fun same => ?_) fun clear => ?_
    · have further := shortens behind (same.trans closed)
      omega
    · refine not_clear_of_closed isQuote abreast closed (fun other isStop => ?_) clear.1
      obtain rfl := Option.some.inj isStop
      exact atLeast
  · rw [comesOn]
    by_cases splits : escapes name = true ∧ stop.head? = some quote
    · obtain ⟨isEscaped, isHead⟩ := splits
      obtain ⟨behind, rfl⟩ := List.head?_eq_some_iff.mp isHead
      refine iff_of_false (fun same => ?_) fun clear => ?_
      · rw [passed, if_pos isEscaped, List.tail_cons, quotedEnd?_quote isQuote positive] at same
        exact Nat.lt_irrefl _ (length_closing?_lt same.symm)
      · exact clear.1.2 ⟨quote :: behind, rfl, rfl, by simpa using isEscaped⟩
    · have unsplit : escapes name = true → stop.head? ≠ some quote :=
        fun isEscaped isHead => splits ⟨isEscaped, isHead⟩
      have isExact : stop.head? = some quote → passed name stop = stop := by
        intro isHead
        rw [passed, if_neg fun isEscaped => unsplit isEscaped isHead]
      rw [agrees (abreast_passed escaped) isExact]
      exact (and_iff_right (clear_of_passed unsplit)).symm

end Agreement

/--
Side by side, the reader and the checker leave the same behind a quoted part exactly if every name
on the way is clear: none hides the quote that the checker takes for the closing one, and none
splits an escaped quote.
-/
theorem quotedEnd?_eq_closing?_iff
    {quote : UInt8}
    (isQuote : IsQuote quote)
    (acrossLines : Bool)
    (bound rounds : Nat) :
    ∀ text checked : Text, text.length < rounds → text.length ≤ bound → Tame text →
      Abreast text checked → (text.head? = some quote → checked = text) →
      (quotedEnd? (partEnd? acrossLines bound) quote rounds text = closing? quote checked ↔
        ∀ name ∈ names (partEnd? acrossLines bound) quote rounds text,
          name.Clear quote (closing? quote checked)) := by
  have parts := crosses_part isQuote acrossLines bound
  induction rounds with
  | zero =>
      intro text checked short
      omega
  | succ rounds inductionHypothesis =>
      intro text checked short fits tame abreast isExact
      obtain ⟨later, abreastLater, isExactThere, comes⟩ := abreast_behindOwnRun abreast isExact
      have suffix := behindRun_suffix quote text
      have stops := behindRun_stops quote text
      rw [quotedEnd?, names, comes]
      generalize behindRun quote text = left at abreastLater isExactThere suffix stops
      cases left with
      | nil =>
          obtain rfl : later = [] := List.suffix_nil.mp abreastLater.suffix
          simp [closing?, closingFrom?]
      | cons byte rest =>
          have tameLeft := tame.of_suffix suffix
          have tameRest := tameLeft.of_suffix (List.suffix_cons byte rest)
          have shorter : rest.length + 1 ≤ text.length := suffix.length_le
          have notBracket : byte ≠ Byte.openBracket := (tameLeft byte (by simp)).2
          simp only
          by_cases isDollar : byte = Byte.dollar
          · subst isDollar
            simp only [beq_self_eq_true, if_true]
            cases named : partEnd? acrossLines bound rest with
            | none =>
                simp only [Option.bind_none, Option.elim_none, List.mem_singleton, forall_eq]
                exact endless_agrees_iff isQuote abreastLater
            | some stop =>
                simp only [Option.bind_some, Option.elim_some, List.forall_mem_cons]
                obtain ⟨name, rfl, escaped, crossed⟩ :=
                  crosses_dollar isQuote parts (by omega) tameRest named abreastLater
                rw [List.length_append] at shorter
                have tameStop := tameRest.of_suffix (List.suffix_append name stop)
                refine named_agrees_iff isQuote (by omega) abreastLater escaped crossed ?_
                  (inductionHypothesis stop (passed name stop) (by omega) (by omega) tameStop)
                exact fun behind ends => length_quotedEnd?_lt isQuote parts (by omega) (by omega)
                  tameStop ends
          · obtain rfl : byte = quote := by
              rcases stops byte rfl with dollar | bracket | same
              · exact absurd dollar isDollar
              · exact absurd bracket notBracket
              · exact same
            rw [isExactThere rfl, closing?_quote isQuote]
            simp [isDollar, notBracket]

end LittleScript.Source
