import LittleScript.Proofs.LastCommand
import LittleScript.Source.Checker

namespace LittleScript.Source

/-!
# Outlines of plain texts

In a text without comments and dollars only braces, brackets and quotes matter to its structure.
The outline of such a text is its first flaw and its stretches in brackets.  The checker finds the
flaw of the outline; what reads the text follows the outline as well.
-/

/-! ## Plain texts -/

/--
Whether a text has no hash and no dollar, and no backslash that is its last byte or stands directly
before a closing bracket.
-/
def isPlain : Text → Bool
  | [] => true
  | byte :: rest =>
      byte != Byte.hash && byte != Byte.dollar &&
        (byte != Byte.backslash || rest.head?.any (· != Byte.closeBracket)) && isPlain rest

/-- A stretch in brackets: the offset behind the opening bracket and the text inside. -/
structure Bracketed where
  offset : Nat
  inside : Text
  deriving Repr, DecidableEq

/-- Whether an offset lies in the stretch. -/
def Bracketed.covers (stretch : Bracketed) (offset : Nat) : Bool :=
  stretch.offset ≤ offset && offset < stretch.offset + stretch.inside.length

/-- The first flaw of a text, and its stretches in brackets that are not inside others. -/
structure Outline where
  flaw : Option SyntaxError
  stretches : List Bracketed
  deriving Repr, DecidableEq

/-- A quote that is open: its byte and where it stands. -/
abbrev OpenQuote := UInt8 × Nat

/-- The outline before a stretch in brackets, given what is inside and what is behind. -/
def Outline.before (stretch : Bracketed) (within behind : Outline) : Outline :=
  ⟨within.flaw.or behind.flaw, stretch :: behind.stretches⟩

/--
The outline of a plain text from an offset on, between words or in a quote, given how to outline
what is shorter.
-/
def outlineStep (outlined : Option OpenQuote → Nat → Text → Outline) (quote : Option OpenQuote)
    (offset : Nat) : Text → Outline
  | [] => ⟨quote.map fun opened => ⟨.openQuote, opened.2⟩, []⟩
  | byte :: rest =>
      if byte == Byte.openBracket then
        match bracketsEnd? rest with
        | none => ⟨some ⟨.openBracket, offset⟩, []⟩
        | some (inside, after) =>
            .before ⟨offset + 1, inside⟩ (outlined none (offset + 1) inside)
              (outlined quote (offset + inside.length + 2) after)
      else
        match quote with
        | none =>
            if byte == Byte.openBrace then
              match bracesEnd? rest with
              | none => ⟨some ⟨.openBrace, offset⟩, []⟩
              | some (inside, after) => outlined none (offset + inside.length + 2) after
            else if byte == Byte.doubleQuote || byte == Byte.singleQuote then
              outlined (some (byte, offset)) (offset + 1) rest
            else if byte == Byte.closeBrace || byte == Byte.closeBracket then
              ⟨some ⟨.strayCloser byte, offset⟩, []⟩
            else outlined none (offset + 1) rest
        | some (closer, start) =>
            if byte == Byte.backslash then
              outlined (some (closer, start)) (offset + 2) rest.tail
            else if byte == closer then outlined none (offset + 1) rest
            else outlined (some (closer, start)) (offset + 1) rest

/-- The outline, step by step; every step shortens the text, so a bound above its length will do. -/
def outlineWithin : Nat → Option OpenQuote → Nat → Text → Outline
  | 0, _, _, _ => ⟨none, []⟩
  | bound + 1, quote, offset, text => outlineStep (outlineWithin bound) quote offset text

/-- The outline of a plain text from an offset on. -/
def outlineFrom (quote : Option OpenQuote) (offset : Nat) (text : Text) : Outline :=
  outlineWithin (text.length + 1) quote offset text

/-- The outline of a plain script. -/
def outline (code : Text) : Outline :=
  outlineFrom none 0 code

/-- Whether the brackets of a script are nested at most so deeply. -/
def nestsWithin : Nat → Text → Bool
  | 0, code => (outline code).stretches.isEmpty
  | depth + 1, code => (outline code).stretches.all fun stretch => nestsWithin depth stretch.inside

/-- Whether an offset of a script lies inside brackets. -/
def isInBrackets (code : Text) (offset : Nat) : Bool :=
  (outline code).stretches.any (·.covers offset)

/-! ## Suffixes and stretches of plain texts -/

/-- What stands behind some bytes of a plain text is plain. -/
theorem isPlain_of_suffix
    {text longer : Text}
    (suffix : text <:+ longer)
    (plain : isPlain longer = true) :
    isPlain text = true := by
  obtain ⟨before, rfl⟩ := suffix
  induction before with
  | nil =>
      exact plain
  | cons byte before inductionHypothesis =>
      simp only [List.cons_append, isPlain, Bool.and_eq_true] at plain
      exact inductionHypothesis plain.2

/-- The closer that has been found stands between the two texts. -/
theorem eq_of_balanced?
    {opener closer : UInt8}
    {text inside before after : Text}
    {depth : Nat}
    (found : balanced? opener closer depth text inside = some (before, after)) :
    inside.reverse ++ text = before ++ closer :: after := by
  fun_induction balanced? opener closer depth text inside <;> simp_all

/-- The end that was found for brackets divides the text. -/
theorem eq_of_bracketsEnd?
    {text inside after : Text}
    (found : bracketsEnd? text = some (inside, after)) :
    text = inside ++ Byte.closeBracket :: after :=
  eq_of_balanced? found

/-- The end that was found for braces divides the text. -/
theorem eq_of_bracesEnd?
    {text inside after : Text}
    (found : bracesEnd? text = some (inside, after)) :
    text = inside ++ Byte.closeBrace :: after :=
  eq_of_balanced? found

/-- The stretch in brackets in a plain text is plain: no backslash stands before its end. -/
theorem isPlain_of_bracketsEnd?
    {text inside after : Text}
    (found : bracketsEnd? text = some (inside, after))
    (plain : isPlain text = true) :
    isPlain inside = true := by
  rw [eq_of_bracketsEnd? found] at plain
  clear found
  induction inside with
  | nil =>
      rfl
  | cons byte inside inductionHypothesis =>
      simp only [List.cons_append, isPlain, Bool.and_eq_true] at plain ⊢
      refine ⟨⟨plain.1.1, ?_⟩, inductionHypothesis plain.2⟩
      cases inside with
      | nil =>
          simpa using plain.1.2
      | cons next inside =>
          exact plain.1.2

/-! ## The steps of an outline -/

/-- A byte that neither opens nor closes anything. -/
def isOrdinary (byte : UInt8) : Bool :=
  byte != Byte.openBracket && byte != Byte.closeBracket && byte != Byte.openBrace &&
    byte != Byte.closeBrace && byte != Byte.doubleQuote && byte != Byte.singleQuote

/-- What is inside brackets and what is behind them are shorter than the text. -/
theorem length_of_bracketsEnd?
    {text inside after : Text}
    (found : bracketsEnd? text = some (inside, after)) :
    text.length = inside.length + after.length + 1 := by
  simp [eq_of_bracketsEnd? found, Nat.add_assoc]

/-- What is inside braces and what is behind them are shorter than the text. -/
theorem length_of_bracesEnd?
    {text inside after : Text}
    (found : bracesEnd? text = some (inside, after)) :
    text.length = inside.length + after.length + 1 := by
  simp [eq_of_bracesEnd? found, Nat.add_assoc]

/-- Only what is shorter than the text matters to a step. -/
theorem outlineStep_congr
    {outlined other : Option OpenQuote → Nat → Text → Outline}
    {text : Text}
    (agree : ∀ quote offset shorter, shorter.length < text.length →
      outlined quote offset shorter = other quote offset shorter)
    (quote : Option OpenQuote)
    (offset : Nat) :
    outlineStep outlined quote offset text = outlineStep other quote offset text := by
  cases text with
  | nil =>
      rfl
  | cons byte rest =>
      simp only [List.length_cons] at agree
      have next : ∀ quote offset, outlined quote offset rest = other quote offset rest :=
        fun quote offset => agree quote offset rest (by omega)
      have behind : ∀ quote offset,
          outlined quote offset rest.tail = other quote offset rest.tail :=
        fun quote offset => agree quote offset rest.tail (by rw [List.length_tail]; omega)
      simp only [outlineStep, next, behind]
      split
      · cases found : bracketsEnd? rest with
        | none =>
            rfl
        | some parts =>
            have sized := length_of_bracketsEnd? found
            simp only [agree none _ parts.1 (by omega), agree quote _ parts.2 (by omega)]
      · cases found : bracesEnd? rest with
        | none =>
            rfl
        | some parts =>
            have sized := length_of_bracesEnd? found
            simp only [agree none _ parts.2 (by omega)]

/-- A bound above the length of the text does not matter. -/
theorem outlineWithin_eq
    (bound : Nat) :
    ∀ (other : Nat) (quote : Option OpenQuote) (offset : Nat) (text : Text),
      text.length < bound → text.length < other →
      outlineWithin bound quote offset text = outlineWithin other quote offset text := by
  induction bound with
  | zero =>
      intro other quote offset text enough
      omega
  | succ bound inductionHypothesis =>
      intro other quote offset text enough enoughOther
      obtain ⟨smaller, rfl⟩ : ∃ smaller, other = smaller + 1 := ⟨other - 1, by omega⟩
      exact outlineStep_congr
        (fun _ _ shorter isShorter =>
          inductionHypothesis smaller _ _ shorter (by omega) (by omega))
        quote offset

/-- An outline is made step by step. -/
theorem outlineFrom_eq
    (quote : Option OpenQuote)
    (offset : Nat)
    (text : Text) :
    outlineFrom quote offset text = outlineStep outlineFrom quote offset text := by
  rw [outlineFrom, outlineWithin]
  refine outlineStep_congr (fun quote offset shorter isShorter => ?_) quote offset
  exact outlineWithin_eq _ _ quote offset shorter isShorter (Nat.lt_succ_self _)

/-- At the end of the text a quote may still be open. -/
@[simp] theorem outlineFrom_nil
    (quote : Option OpenQuote)
    (offset : Nat) :
    outlineFrom quote offset [] = ⟨quote.map fun opened => ⟨.openQuote, opened.2⟩, []⟩ :=
  outlineFrom_eq quote offset []

/-- A bracket that is not closed is a flaw. -/
theorem outlineFrom_openBracket
    (quote : Option OpenQuote)
    (offset : Nat)
    {rest : Text}
    (missing : bracketsEnd? rest = none) :
    outlineFrom quote offset (Byte.openBracket :: rest) = ⟨some ⟨.openBracket, offset⟩, []⟩ := by
  simp [outlineFrom_eq, outlineStep, missing]

/-- A stretch in brackets has an outline of its own, and no quote is open in it. -/
theorem outlineFrom_brackets
    (quote : Option OpenQuote)
    (offset : Nat)
    {rest inside after : Text}
    (found : bracketsEnd? rest = some (inside, after)) :
    outlineFrom quote offset (Byte.openBracket :: rest) =
      .before ⟨offset + 1, inside⟩ (outlineFrom none (offset + 1) inside)
        (outlineFrom quote (offset + inside.length + 2) after) := by
  rw [outlineFrom_eq]
  simp [outlineStep, found]

/-- A brace that is not closed is a flaw. -/
theorem outlineFrom_openBrace
    (offset : Nat)
    {rest : Text}
    (missing : bracesEnd? rest = none) :
    outlineFrom none offset (Byte.openBrace :: rest) = ⟨some ⟨.openBrace, offset⟩, []⟩ := by
  rw [outlineFrom_eq, outlineStep, missing]
  rfl

/-- A stretch in braces is passed over. -/
theorem outlineFrom_braces
    (offset : Nat)
    {rest inside after : Text}
    (found : bracesEnd? rest = some (inside, after)) :
    outlineFrom none offset (Byte.openBrace :: rest) =
      outlineFrom none (offset + inside.length + 2) after := by
  rw [outlineFrom_eq, outlineStep, found]
  rfl

/-- A quote between words opens a quoted stretch. -/
theorem outlineFrom_quote
    {byte : UInt8}
    (offset : Nat)
    (rest : Text)
    (isQuote : byte = Byte.doubleQuote ∨ byte = Byte.singleQuote) :
    outlineFrom none offset (byte :: rest) =
      outlineFrom (some (byte, offset)) (offset + 1) rest := by
  rw [outlineFrom_eq]
  rcases isQuote with rfl | rfl <;> rfl

/-- A closer between words is a flaw. -/
theorem outlineFrom_closer
    {byte : UInt8}
    (offset : Nat)
    (rest : Text)
    (closes : byte = Byte.closeBrace ∨ byte = Byte.closeBracket) :
    outlineFrom none offset (byte :: rest) = ⟨some ⟨.strayCloser byte, offset⟩, []⟩ := by
  rw [outlineFrom_eq]
  rcases closes with rfl | rfl <;> rfl

/-- An ordinary byte between words is passed over. -/
theorem outlineFrom_ordinary
    {byte : UInt8}
    (offset : Nat)
    (rest : Text)
    (ordinary : isOrdinary byte = true) :
    outlineFrom none offset (byte :: rest) = outlineFrom none (offset + 1) rest := by
  simp only [isOrdinary, Bool.and_eq_true, bne_iff_ne] at ordinary
  rw [outlineFrom_eq]
  simp [outlineStep, ordinary]

/-- A run of ordinary bytes does not matter. -/
theorem outlineFrom_ordinaries
    {run : Text}
    (offset : Nat)
    (rest : Text)
    (ordinary : ∀ byte ∈ run, isOrdinary byte = true) :
    outlineFrom none offset (run ++ rest) = outlineFrom none (offset + run.length) rest := by
  induction run generalizing offset with
  | nil =>
      rfl
  | cons byte run inductionHypothesis =>
      rw [List.cons_append, outlineFrom_ordinary _ _ (ordinary byte (by simp)),
        inductionHypothesis _ fun other member => ordinary other (by simp [member])]
      simp only [List.length_cons, Nat.add_assoc, Nat.add_comm 1]

/-- Bytes of an ordinary kind at the start of a text do not matter. -/
theorem outlineFrom_dropWhile
    {accept : UInt8 → Bool}
    (ordinary : ∀ byte, accept byte = true → isOrdinary byte = true)
    (offset : Nat)
    (text : Text) :
    outlineFrom none offset text =
      outlineFrom none (offset + (text.takeWhile accept).length) (text.dropWhile accept) := by
  have accepted : ∀ byte ∈ text.takeWhile accept, isOrdinary byte = true :=
    fun byte member => ordinary byte (List.all_eq_true.mp List.all_takeWhile byte member)
  rw [← outlineFrom_ordinaries offset _ accepted, List.takeWhile_append_dropWhile]

/-- A backslash in a quote takes the next byte with it. -/
theorem outlineFrom_escape
    (opened : OpenQuote)
    (offset : Nat)
    (rest : Text) :
    outlineFrom (some opened) offset (Byte.backslash :: rest) =
      outlineFrom (some opened) (offset + 2) rest.tail := by
  rw [outlineFrom_eq]
  rfl

/-- The same quote again ends the quoted stretch. -/
theorem outlineFrom_quoteEnd
    {closer : UInt8}
    (start offset : Nat)
    (rest : Text)
    (notBracket : closer ≠ Byte.openBracket)
    (notBackslash : closer ≠ Byte.backslash) :
    outlineFrom (some (closer, start)) offset (closer :: rest) =
      outlineFrom none (offset + 1) rest := by
  rw [outlineFrom_eq]
  simp [outlineStep, notBracket, notBackslash]

/-- Any other byte in a quote is passed over. -/
theorem outlineFrom_quoted
    {closer byte : UInt8}
    (start offset : Nat)
    (rest : Text)
    (notBracket : byte ≠ Byte.openBracket)
    (notBackslash : byte ≠ Byte.backslash)
    (notCloser : byte ≠ closer) :
    outlineFrom (some (closer, start)) offset (byte :: rest) =
      outlineFrom (some (closer, start)) (offset + 1) rest := by
  rw [outlineFrom_eq]
  simp [outlineStep, notBracket, notBackslash, notCloser]

/-! ## Induction over outlines -/

/-- `Outlined quote offset text found`: step by step, the text has this outline. -/
inductive Outlined : Option OpenQuote → Nat → Text → Outline → Prop where
  | ended {quote : Option OpenQuote} {offset : Nat} :
      Outlined quote offset [] ⟨quote.map fun opened => ⟨.openQuote, opened.2⟩, []⟩
  | openBracket {quote : Option OpenQuote} {offset : Nat} {rest : Text} :
      bracketsEnd? rest = none →
      Outlined quote offset (Byte.openBracket :: rest) ⟨some ⟨.openBracket, offset⟩, []⟩
  | brackets {quote : Option OpenQuote} {offset : Nat} {rest inside after : Text}
      {within behind : Outline} :
      bracketsEnd? rest = some (inside, after) → Outlined none (offset + 1) inside within →
      Outlined quote (offset + inside.length + 2) after behind →
      Outlined quote offset (Byte.openBracket :: rest) (.before ⟨offset + 1, inside⟩ within behind)
  | openBrace {offset : Nat} {rest : Text} :
      bracesEnd? rest = none →
      Outlined none offset (Byte.openBrace :: rest) ⟨some ⟨.openBrace, offset⟩, []⟩
  | braces {offset : Nat} {rest inside after : Text} {found : Outline} :
      bracesEnd? rest = some (inside, after) →
      Outlined none (offset + inside.length + 2) after found →
      Outlined none offset (Byte.openBrace :: rest) found
  | quote {byte : UInt8} {offset : Nat} {rest : Text} {found : Outline} :
      byte = Byte.doubleQuote ∨ byte = Byte.singleQuote →
      Outlined (some (byte, offset)) (offset + 1) rest found →
      Outlined none offset (byte :: rest) found
  | closer {byte : UInt8} {offset : Nat} {rest : Text} :
      byte = Byte.closeBrace ∨ byte = Byte.closeBracket →
      Outlined none offset (byte :: rest) ⟨some ⟨.strayCloser byte, offset⟩, []⟩
  | ordinary {byte : UInt8} {offset : Nat} {rest : Text} {found : Outline} :
      isOrdinary byte = true → Outlined none (offset + 1) rest found →
      Outlined none offset (byte :: rest) found
  | escape {opened : OpenQuote} {offset : Nat} {rest : Text} {found : Outline} :
      Outlined (some opened) (offset + 2) rest.tail found →
      Outlined (some opened) offset (Byte.backslash :: rest) found
  | quoteEnd {closer : UInt8} {start offset : Nat} {rest : Text} {found : Outline} :
      closer ≠ Byte.openBracket → closer ≠ Byte.backslash →
      Outlined none (offset + 1) rest found →
      Outlined (some (closer, start)) offset (closer :: rest) found
  | quoted {closer byte : UInt8} {start offset : Nat} {rest : Text} {found : Outline} :
      byte ≠ Byte.openBracket → byte ≠ Byte.backslash → byte ≠ closer →
      Outlined (some (closer, start)) (offset + 1) rest found →
      Outlined (some (closer, start)) offset (byte :: rest) found

/-- The outline is made step by step; the induction is on a bound for the length. -/
theorem outlined_of_length
    (size : Nat) :
    ∀ (quote : Option OpenQuote) (offset : Nat) (text : Text), text.length < size →
      Outlined quote offset text (outlineFrom quote offset text) := by
  induction size with
  | zero =>
      intro quote offset text small
      omega
  | succ size inductionHypothesis =>
      intro quote offset text small
      rw [outlineFrom_eq]
      fun_cases outlineStep outlineFrom quote offset text
      case case1 =>
        exact .ended
      all_goals simp only [List.length_cons, Nat.add_lt_add_iff_right] at small
      case case2 byte rest isBracket missing =>
        rw [beq_iff_eq.mp isBracket]
        exact .openBracket missing
      case case3 byte rest isBracket inside after closed =>
        have sized := length_of_bracketsEnd? closed
        rw [beq_iff_eq.mp isBracket]
        exact .brackets closed (inductionHypothesis _ _ inside (by omega))
          (inductionHypothesis _ _ after (by omega))
      case case4 byte rest notBracket isBrace missing =>
        rw [beq_iff_eq.mp isBrace]
        exact .openBrace missing
      case case5 byte rest notBracket isBrace inside after closed =>
        have sized := length_of_bracesEnd? closed
        rw [beq_iff_eq.mp isBrace]
        exact .braces closed (inductionHypothesis _ _ after (by omega))
      case case6 byte rest notBracket notBrace isQuote =>
        exact .quote (by simpa using isQuote) (inductionHypothesis _ _ rest small)
      case case7 byte rest notBracket notBrace notQuote closes =>
        exact .closer (by simpa using closes)
      case case8 byte rest notBracket notBrace notQuote notCloser =>
        exact .ordinary (by simp_all [isOrdinary]) (inductionHypothesis _ _ rest small)
      case case9 byte rest notBracket closer start isBackslash =>
        rw [beq_iff_eq.mp isBackslash]
        exact .escape (inductionHypothesis _ _ rest.tail (by rw [List.length_tail]; omega))
      case case10 byte rest notBracket closer start notBackslash isCloser =>
        obtain rfl := beq_iff_eq.mp isCloser
        exact .quoteEnd (by simpa using notBracket) (by simpa using notBackslash)
          (inductionHypothesis _ _ rest small)
      case case11 byte rest notBracket closer start notBackslash notCloser =>
        exact .quoted (by simpa using notBracket) (by simpa using notBackslash)
          (by simpa using notCloser) (inductionHypothesis _ _ rest small)

/-- Every text has its outline step by step. -/
theorem outlined
    (quote : Option OpenQuote)
    (offset : Nat)
    (text : Text) :
    Outlined quote offset text (outlineFrom quote offset text) :=
  outlined_of_length _ quote offset text (Nat.lt_succ_self _)

/-! ## The first flaw -/

/-- The first flaw lies in the text, unless it is the quote that is open before it. -/
theorem Outlined.flaw_within
    {quote : Option OpenQuote}
    {offset : Nat}
    {text : Text}
    {ahead : Outline}
    (outlined : Outlined quote offset text ahead)
    {found : SyntaxError}
    (isFound : ahead.flaw = some found) :
    (offset ≤ found.offset ∧ found.offset < offset + text.length) ∨
      ∃ closer, quote = some (closer, found.offset) := by
  induction outlined with
  | ended =>
      obtain ⟨opened, isOpen, rfl⟩ := Option.map_eq_some_iff.mp isFound
      exact .inr ⟨opened.1, isOpen⟩
  | openBracket _ | openBrace _ | closer _ =>
      cases isFound
      simp
  | brackets closed _ _ inside behind =>
      have sized := length_of_bracketsEnd? closed
      simp only [List.length_cons]
      rcases Option.or_eq_some_iff.mp isFound with isInside | ⟨-, isBehind⟩
      · rcases inside isInside with bounds | ⟨_, isOpen⟩
        · exact .inl (by omega)
        · cases isOpen
      · rcases behind isBehind with bounds | isOpen
        · exact .inl (by omega)
        · exact .inr isOpen
  | braces closed _ inductionHypothesis =>
      have sized := length_of_bracesEnd? closed
      simp only [List.length_cons]
      rcases inductionHypothesis isFound with bounds | isOpen
      · exact .inl (by omega)
      · exact .inr isOpen
  | quote _ _ inductionHypothesis =>
      simp only [List.length_cons]
      rcases inductionHypothesis isFound with bounds | ⟨_, isOpen⟩
      · exact .inl (by omega)
      · cases isOpen
        exact .inl (by omega)
  | quoteEnd _ _ _ inductionHypothesis =>
      simp only [List.length_cons]
      rcases inductionHypothesis isFound with bounds | ⟨_, isOpen⟩
      · exact .inl (by omega)
      · cases isOpen
  | escape _ inductionHypothesis =>
      simp only [List.length_cons, List.length_tail] at inductionHypothesis ⊢
      rcases inductionHypothesis isFound with bounds | isOpen
      · exact .inl (by omega)
      · exact .inr isOpen
  | ordinary _ _ inductionHypothesis | quoted _ _ _ _ inductionHypothesis =>
      simp only [List.length_cons]
      rcases inductionHypothesis isFound with bounds | isOpen
      · exact .inl (by omega)
      · exact .inr isOpen

/-- The kind of the first flaw does not depend on where the text stands. -/
theorem Outlined.flaw_moved
    {quote : Option OpenQuote}
    {offset : Nat}
    {text : Text}
    {ahead : Outline}
    (outlined : Outlined quote offset text ahead)
    (other : Option OpenQuote)
    (place : Nat)
    (sameQuote : quote.map Prod.fst = other.map Prod.fst) :
    ahead.flaw.map SyntaxError.flaw =
      (outlineFrom other place text).flaw.map SyntaxError.flaw := by
  have unquoted : ∀ {other : Option OpenQuote},
      (none : Option OpenQuote).map Prod.fst = other.map Prod.fst → other = none :=
    fun same => Option.map_eq_none_iff.mp same.symm
  have quotedAlike : ∀ {closer : UInt8} {start : Nat} {other : Option OpenQuote},
      (some (closer, start)).map Prod.fst = other.map Prod.fst →
      ∃ otherStart, other = some (closer, otherStart) := by
    rintro closer start (_ | ⟨_, otherStart⟩) same
    · cases same
    · cases same
      exact ⟨otherStart, rfl⟩
  induction outlined generalizing other place with
  | @ended quote offset =>
      cases quote <;> cases other <;> simp_all
  | openBracket missing =>
      rw [outlineFrom_openBracket _ _ missing]
      rfl
  | brackets closed _ _ inside behind =>
      rw [outlineFrom_brackets _ _ closed]
      simp only [Outline.before, Option.map_or]
      rw [inside none _ rfl, behind other _ sameQuote]
  | openBrace missing =>
      rw [unquoted sameQuote, outlineFrom_openBrace _ missing]
      rfl
  | braces closed _ inductionHypothesis =>
      rw [unquoted sameQuote, outlineFrom_braces _ closed]
      exact inductionHypothesis none _ rfl
  | @quote byte offset rest found isQuote _ inductionHypothesis =>
      rw [unquoted sameQuote, outlineFrom_quote _ _ isQuote]
      exact inductionHypothesis (some (byte, place)) _ rfl
  | closer closes =>
      rw [unquoted sameQuote, outlineFrom_closer _ _ closes]
      rfl
  | ordinary isOrdinary _ inductionHypothesis =>
      rw [unquoted sameQuote, outlineFrom_ordinary _ _ isOrdinary]
      exact inductionHypothesis none _ rfl
  | escape _ inductionHypothesis =>
      obtain ⟨start, rfl⟩ := quotedAlike sameQuote
      rw [outlineFrom_escape]
      exact inductionHypothesis _ _ sameQuote
  | quoteEnd notBracket notBackslash _ inductionHypothesis =>
      obtain ⟨start, rfl⟩ := quotedAlike sameQuote
      rw [outlineFrom_quoteEnd _ _ _ notBracket notBackslash]
      exact inductionHypothesis none _ rfl
  | quoted notBracket notBackslash notCloser _ inductionHypothesis =>
      obtain ⟨start, rfl⟩ := quotedAlike sameQuote
      rw [outlineFrom_quoted _ _ _ notBracket notBackslash notCloser]
      exact inductionHypothesis _ _ rfl

/-- Where a stretch in brackets has a flaw, it covers it. -/
theorem covers_of_flaw
    {offset : Nat}
    {inside : Text}
    {found : SyntaxError}
    (flawed : (outlineFrom none offset inside).flaw = some found) :
    Bracketed.covers ⟨offset, inside⟩ found.offset = true := by
  rcases (outlined none offset inside).flaw_within flawed with bounds | ⟨_, isOpen⟩
  · simpa [Bracketed.covers] using bounds
  · cases isOpen

/-- A stretch in brackets has the flaw of the script it is. -/
theorem flaw_inside
    (offset : Nat)
    (inside : Text) :
    (outlineFrom none offset inside).flaw.map SyntaxError.flaw =
      (outline inside).flaw.map SyntaxError.flaw :=
  (outlined none offset inside).flaw_moved none 0 rfl

/-! ## Stretches in brackets -/

/-- In a plain text the stretches in brackets are plain. -/
theorem Outlined.isPlain_of_stretch
    {quote : Option OpenQuote}
    {offset : Nat}
    {text : Text}
    {ahead : Outline}
    (outlined : Outlined quote offset text ahead)
    (plain : isPlain text = true)
    {stretch : Bracketed}
    (member : stretch ∈ ahead.stretches) :
    isPlain stretch.inside = true := by
  have plainRest : ∀ {byte : UInt8} {rest shorter : Text}, isPlain (byte :: rest) = true →
      shorter <:+ rest → isPlain shorter = true :=
    fun plain suffix => isPlain_of_suffix (suffix.trans (List.suffix_cons _ _)) plain
  induction outlined with
  | ended | openBracket _ | openBrace _ | closer _ =>
      cases member
  | brackets closed _ _ _ behind =>
      rcases List.mem_cons.mp member with rfl | isBehind
      · exact isPlain_of_bracketsEnd? closed (plainRest plain List.suffix_rfl)
      · exact behind (plainRest plain (balanced?_sized closed).1) isBehind
  | braces closed _ inductionHypothesis =>
      exact inductionHypothesis (plainRest plain (balanced?_sized closed).1) member
  | escape _ inductionHypothesis =>
      exact inductionHypothesis (plainRest plain (List.tail_suffix _)) member
  | quote _ _ inductionHypothesis | ordinary _ _ inductionHypothesis
  | quoteEnd _ _ _ inductionHypothesis | quoted _ _ _ _ inductionHypothesis =>
      exact inductionHypothesis (plainRest plain List.suffix_rfl) member

/-- What is in brackets is nested less deeply. -/
theorem nests_inside
    {depth : Nat}
    {code : Text}
    (nests : nestsWithin depth code = true)
    {stretch : Bracketed}
    (member : stretch ∈ (outline code).stretches) :
    ∃ less, depth = less + 1 ∧ nestsWithin less stretch.inside = true := by
  cases depth with
  | zero =>
      rw [nestsWithin, List.isEmpty_iff] at nests
      rw [nests] at member
      cases member
  | succ less =>
      rw [nestsWithin, List.all_eq_true] at nests
      exact ⟨less, rfl, nests stretch member⟩

/-! ## The checker -/

/-- The quote that is open in a region. -/
def Region.openQuote : Region → Option OpenQuote
  | .words _ => none
  | .quoted quote start => some (quote, start)

/-- A line break is ordinary. -/
theorem isOrdinary_of_isLineBreak
    {byte : UInt8}
    (lineBreak : isLineBreak byte = true) :
    isOrdinary byte = true := by
  revert byte
  apply Byte.of_codes
  decide +kernel

/-- The quotes that a region can have open. -/
def Region.IsProper (region : Region) : Prop :=
  ∀ opened ∈ region.openQuote, opened.1 = Byte.doubleQuote ∨ opened.1 = Byte.singleQuote

/-- The checker finds the first flaw of every plain text shorter than a bound. -/
def ScansOutlines (bound : Nat) : Prop :=
  ∀ (region : Region) (offset : Nat) (text : Text), region.IsProper → text.length < bound →
    isPlain text = true →
      scan bound region offset text = (outlineFrom region.openQuote offset text).flaw

/-- What is in brackets and what is behind are scanned one after the other. -/
theorem scan_brackets
    {bound : Nat}
    (scans : ScansOutlines bound)
    {region : Region}
    (proper : region.IsProper)
    (offset : Nat)
    {rest : Text}
    (small : rest.length < bound)
    (plain : isPlain rest = true) :
    (match bracketsEnd? rest with
      | none => some ⟨.openBracket, offset⟩
      | some (inside, after) =>
          match scan bound (.words true) (offset + 1) inside with
          | some found => some found
          | none => scan bound region (offset + inside.length + 2) after) =
      (outlineFrom region.openQuote offset (Byte.openBracket :: rest)).flaw := by
  cases closed : bracketsEnd? rest with
  | none =>
      rw [outlineFrom_openBracket _ _ closed]
  | some parts =>
      have sized := length_of_bracketsEnd? closed
      have suffix := (balanced?_sized closed).1
      rw [outlineFrom_brackets _ _ closed]
      simp only [Outline.before]
      rw [scans (.words true) _ _ (by simp [Region.IsProper, Region.openQuote]) (by omega)
          (isPlain_of_bracketsEnd? closed plain),
        scans region _ _ proper (by omega) (isPlain_of_suffix suffix plain)]
      simp only [Region.openQuote]
      cases (outlineFrom none (offset + 1) parts.1).flaw <;> rfl

/-- Between words no quote is open. -/
theorem Region.isProper_words
    (atWordStart : Bool) :
    (Region.words atWordStart).IsProper := by
  simp [IsProper, openQuote]

/-- Dropping as many bytes as a front has is dropping the front. -/
theorem drop_length_takeWhile
    (accept : UInt8 → Bool)
    (text : Text) :
    text.drop (text.takeWhile accept).length = text.dropWhile accept := by
  calc
    text.drop (text.takeWhile accept).length =
        (text.takeWhile accept ++ text.dropWhile accept).drop (text.takeWhile accept).length := by
      rw [List.takeWhile_append_dropWhile]
    _ = text.dropWhile accept := List.drop_left

/-- Between and inside words the checker follows the outline. -/
theorem scan_words
    {bound : Nat}
    (scans : ScansOutlines bound)
    (atWordStart : Bool)
    (offset : Nat)
    {byte : UInt8}
    {rest : Text}
    (small : rest.length < bound)
    (plain : isPlain (byte :: rest) = true) :
    scan (bound + 1) (.words atWordStart) offset (byte :: rest) =
      (outlineFrom none offset (byte :: rest)).flaw := by
  have plainRest : isPlain rest = true := isPlain_of_suffix (List.suffix_cons _ _) plain
  have goesOn : ∀ (flag : Bool) (place : Nat) {shorter : Text}, shorter <:+ rest →
      scan bound (.words flag) place shorter = (outlineFrom none place shorter).flaw :=
    fun flag place shorter suffix => scans _ _ _ (Region.isProper_words flag)
      (Nat.lt_of_le_of_lt suffix.length_le small) (isPlain_of_suffix suffix plainRest)
  simp only [isPlain, Bool.and_eq_true, Bool.or_eq_true, bne_iff_ne] at plain
  obtain ⟨⟨⟨notHash, notDollar⟩, escapes⟩, -⟩ := plain
  rw [scan.eq_def]
  simp only [beq_iff_eq, notHash, Bool.and_eq_true, false_and, if_false]
  split
  case isTrue continues =>
    obtain ⟨rfl, -⟩ := continues
    have backslash : isOrdinary Byte.backslash = true := by decide
    cases rest with
    | nil =>
        simp at escapes
    | cons next after =>
        simp only
        split
        case isTrue lineBreak =>
          rw [drop_length_takeWhile, goesOn _ _ (List.dropWhile_suffix _),
            outlineFrom_ordinary _ _ backslash, ← outlineFrom_dropWhile @isOrdinary_of_isLineBreak]
        case isFalse notLineBreak =>
          rw [goesOn _ _ List.suffix_rfl, outlineFrom_ordinary _ _ backslash]
  case isFalse =>
    by_cases isBrace : byte = Byte.openBrace
    · subst isBrace
      simp only [if_true]
      cases closed : bracesEnd? rest with
      | none =>
          rw [outlineFrom_openBrace _ closed]
      | some parts =>
          rw [outlineFrom_braces _ closed]
          exact goesOn _ _ (balanced?_sized closed).1
    by_cases isBracket : byte = Byte.openBracket
    · subst isBracket
      exact scan_brackets scans (Region.isProper_words false) offset small plainRest
    by_cases isQuote : byte = Byte.doubleQuote ∨ byte = Byte.singleQuote
    · rw [outlineFrom_quote _ _ isQuote]
      simp only [isBrace, isBracket, if_false, Bool.or_eq_true, beq_iff_eq, isQuote, if_true]
      have proper : (Region.quoted byte offset).IsProper := by
        simpa [Region.IsProper, Region.openQuote] using isQuote
      exact scans _ _ _ proper small plainRest
    by_cases closes : byte = Byte.closeBrace ∨ byte = Byte.closeBracket
    · rw [outlineFrom_closer _ _ closes]
      simp [isBrace, isBracket, isQuote, closes]
    · have ordinary : isOrdinary byte = true := by
        simp_all [isOrdinary]
      rw [outlineFrom_ordinary _ _ ordinary]
      simp [isBrace, isBracket, isQuote, closes, goesOn _ _ List.suffix_rfl]

/-- Inside a quoted word the checker follows the outline. -/
theorem scan_quoted
    {bound : Nat}
    (scans : ScansOutlines bound)
    {quote : UInt8}
    (isQuote : quote = Byte.doubleQuote ∨ quote = Byte.singleQuote)
    (start offset : Nat)
    {byte : UInt8}
    {rest : Text}
    (small : rest.length < bound)
    (plain : isPlain (byte :: rest) = true) :
    scan (bound + 1) (.quoted quote start) offset (byte :: rest) =
      (outlineFrom (some (quote, start)) offset (byte :: rest)).flaw := by
  have plainRest : isPlain rest = true := isPlain_of_suffix (List.suffix_cons _ _) plain
  have proper : (Region.quoted quote start).IsProper := by
    simpa [Region.IsProper, Region.openQuote] using isQuote
  have goesOn : ∀ (place : Nat) {shorter : Text}, shorter <:+ rest →
      scan bound (.quoted quote start) place shorter =
        (outlineFrom (some (quote, start)) place shorter).flaw :=
    fun place shorter suffix => scans _ _ _ proper
      (Nat.lt_of_le_of_lt suffix.length_le small) (isPlain_of_suffix suffix plainRest)
  simp only [isPlain, Bool.and_eq_true, bne_iff_ne] at plain
  have notDollar : byte ≠ Byte.dollar := plain.1.1.2
  rw [scan.eq_def]
  by_cases isBackslash : byte = Byte.backslash
  · subst isBackslash
    rw [outlineFrom_escape]
    exact goesOn _ (List.tail_suffix _)
  by_cases isCloser : byte = quote
  · subst isCloser
    rw [outlineFrom_quoteEnd _ _ _ (by rcases isQuote with rfl | rfl <;> decide) isBackslash]
    simp only [beq_iff_eq, isBackslash, if_false, if_true]
    exact scans (.words false) _ _ (Region.isProper_words false) small plainRest
  by_cases isBracket : byte = Byte.openBracket
  · subst isBracket
    simp only [beq_iff_eq, isBackslash, isCloser, if_false, if_true]
    exact scan_brackets scans proper offset small plainRest
  · rw [outlineFrom_quoted _ _ _ isBracket isBackslash isCloser]
    simp only [beq_iff_eq, isBackslash, isCloser, isBracket, notDollar, if_false, Bool.and_eq_true,
      false_and]
    exact goesOn _ List.suffix_rfl

/-- The checker finds the first flaw of the outline, whatever the length of the text. -/
theorem scansOutlines
    (bound : Nat) :
    ScansOutlines bound := by
  induction bound with
  | zero =>
      intro region offset text proper small
      omega
  | succ bound scans =>
      intro region offset text proper small plain
      cases text with
      | nil =>
          cases region <;> simp [scan, Region.openQuote]
      | cons byte rest =>
          have smallRest : rest.length < bound := by simpa using small
          cases region with
          | words atWordStart =>
              exact scan_words scans atWordStart offset smallRest plain
          | quoted quote start =>
              exact scan_quoted scans (proper _ rfl) start offset smallRest plain

/-- The checker finds the first flaw of the outline. -/
theorem check_eq_flaw
    {code : Text}
    (plain : isPlain code = true) :
    check code = (outline code).flaw :=
  scansOutlines _ _ _ _ (Region.isProper_words true) (Nat.lt_succ_self _) plain

end LittleScript.Source
