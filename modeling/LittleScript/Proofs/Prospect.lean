import LittleScript.Proofs.Outline

namespace LittleScript.Source

/-!
# The prospect of a script

A script that ends inside an open construct may be the beginning of a whole one.  Whether it is
depends on more than its first flaw: what stands in closed brackets is settled, so a flaw in there
is final even where the checker calls the script incomplete, and what stands behind a bracket that
is still open may already hold such a flaw.  The prospect of a script takes both into account.  It
is found from what stands at the front of the text, step by step, and it is complete exactly for
the scripts that the checker accepts.
-/

/-! ## What stands at the front of a text -/

/-- What the checker meets at the front of a text. -/
inductive Front where
  /-- Nothing is left, between words. -/
  | ended
  /-- A quote, brace, block comment or line continuation that is open at the end of the text. -/
  | unfinished
  /-- A closing byte that nothing opened. -/
  | stray
  /-- A bracket that is open at the end of the text, with what stands behind it. -/
  | openBracket (inside : Text)
  /-- A stretch in brackets, and what follows it. -/
  | brackets (inside : Text) (region : Region) (rest : Text)
  /-- Anything else, and what follows it. -/
  | passed (region : Region) (rest : Text)
  deriving Repr, DecidableEq

/-- What follows an opening bracket: the stretch up to its end, or an open end. -/
def Front.ofBracket (region : Region) (rest : Text) : Front :=
  match bracketsEnd? rest with
  | none => .openBracket rest
  | some (inside, after) => .brackets inside region after

/-- What follows an opening brace in a region that goes on behind it. -/
def Front.ofBrace (region : Region) (rest : Text) : Front :=
  match bracesEnd? rest with
  | none => .unfinished
  | some (_, after) => .passed region after

/-- The front of a text in a region; where a quote has been opened does not matter. -/
def front : Region → Text → Front
  | .words _, [] => .ended
  | .quoted _ _, [] => .unfinished
  | .words atWordStart, byte :: rest =>
      if byte == Byte.hash && atWordStart then
        if opensBlock (byte :: rest) then
          match Text.indexOf? blockEnd rest.tail with
          | none => .unfinished
          | some length => .passed (.words true) (rest.tail.drop (length + 2))
        else .passed (.words true) (rest.dropWhile fun next => !Byte.isSeparator next)
      else if byte == Byte.backslash && atWordStart then
        match rest with
        | [] => .unfinished
        | next :: _ =>
            if isLineBreak next then .passed (.words true) (rest.dropWhile isLineBreak)
            else .passed (.words false) rest
      else if byte == Byte.openBrace then .ofBrace (.words false) rest
      else if byte == Byte.openBracket then .ofBracket (.words false) rest
      else if byte == Byte.doubleQuote || byte == Byte.singleQuote then
        .passed (.quoted byte 0) rest
      else if byte == Byte.closeBrace || byte == Byte.closeBracket then .stray
      else .passed (.words (Byte.isSpace byte || Byte.isSeparator byte)) rest
  | .quoted quote start, byte :: rest =>
      if byte == Byte.backslash then .passed (.quoted quote start) rest.tail
      else if byte == quote then .passed (.words false) rest
      else if byte == Byte.openBracket then .ofBracket (.quoted quote start) rest
      else if byte == Byte.dollar && rest.head? == some Byte.openBrace then
        .ofBrace (.quoted quote start) rest.tail
      else .passed (.quoted quote start) rest

/-- What can become of a text when more text follows it. -/
inductive Prospect where
  /-- It has no flaw. -/
  | complete
  /-- Some further text completes it. -/
  | unfinished
  /-- No further text does. -/
  | hopeless
  deriving Repr, DecidableEq

/-- The prospect of a text from what stands at its front, given how to judge what is shorter. -/
def Front.prospect (judge : Region → Text → Prospect) : Front → Prospect
  | .ended => .complete
  | .unfinished => .unfinished
  | .stray => .hopeless
  | .openBracket inside =>
      if judge (.words true) inside = .hopeless then .hopeless else .unfinished
  | .brackets inside region rest =>
      if judge (.words true) inside = .complete then judge region rest else .hopeless
  | .passed region rest => judge region rest

/-- The prospect, step by step; every step shortens the text, so a bound above its length will do. -/
def prospectWithin : Nat → Region → Text → Prospect
  | 0, _, _ => .complete
  | bound + 1, region, text => (front region text).prospect (prospectWithin bound)

/-- The prospect of a text in a region. -/
def prospectFrom (region : Region) (text : Text) : Prospect :=
  prospectWithin (text.length + 1) region text

/-- The prospect of a script. -/
def prospect (code : Text) : Prospect :=
  prospectFrom (.words true) code

/-! ## Steps -/

/--
`Fronted region text found`: what stands at the front of the text, with the reason.  A brace, a
bracket or a byte that is passed alone is met in the same way whatever follows it.
-/
inductive Fronted : Region → Text → Front → Prop where
  | ended {atWordStart : Bool} : Fronted (.words atWordStart) [] .ended
  | openQuote {quote : UInt8} {start : Nat} : Fronted (.quoted quote start) [] .unfinished
  | openComment {rest : Text} :
      opensBlock (Byte.hash :: rest) = true → Text.indexOf? blockEnd rest.tail = none →
      Fronted (.words true) (Byte.hash :: rest) .unfinished
  | block {rest : Text} {length : Nat} :
      opensBlock (Byte.hash :: rest) = true → Text.indexOf? blockEnd rest.tail = some length →
      Fronted (.words true) (Byte.hash :: rest)
        (.passed (.words true) (rest.tail.drop (length + 2)))
  | comment {rest : Text} :
      opensBlock (Byte.hash :: rest) = false →
      Fronted (.words true) (Byte.hash :: rest)
        (.passed (.words true) (rest.dropWhile fun next => !Byte.isSeparator next))
  | dangling : Fronted (.words true) [Byte.backslash] .unfinished
  | continuation {first : UInt8} {rest : Text} :
      isLineBreak first = true →
      Fronted (.words true) (Byte.backslash :: first :: rest)
        (.passed (.words true) (rest.dropWhile isLineBreak))
  | backslash {first : UInt8} {rest : Text} :
      isLineBreak first = false →
      Fronted (.words true) (Byte.backslash :: first :: rest) (.passed (.words false) (first :: rest))
  | openBrace {region next : Region} {byte : UInt8} {lead rest : Text} :
      (∀ other, front region (byte :: (lead ++ other)) = .ofBrace next other) →
      (region.IsProper → next.IsProper) → bracesEnd? rest = none →
      Fronted region (byte :: (lead ++ rest)) .unfinished
  | braces {region next : Region} {byte : UInt8} {lead rest inside after : Text} :
      (∀ other, front region (byte :: (lead ++ other)) = .ofBrace next other) →
      (region.IsProper → next.IsProper) → bracesEnd? rest = some (inside, after) →
      Fronted region (byte :: (lead ++ rest)) (.passed next after)
  | openBracket {region next : Region} {rest : Text} :
      (∀ other, front region (Byte.openBracket :: other) = .ofBracket next other) →
      (region.IsProper → next.IsProper) → bracketsEnd? rest = none →
      Fronted region (Byte.openBracket :: rest) (.openBracket rest)
  | brackets {region next : Region} {rest inside after : Text} :
      (∀ other, front region (Byte.openBracket :: other) = .ofBracket next other) →
      (region.IsProper → next.IsProper) → bracketsEnd? rest = some (inside, after) →
      Fronted region (Byte.openBracket :: rest) (.brackets inside next after)
  | stray {region : Region} {byte : UInt8} {rest : Text} :
      (∀ other, front region (byte :: other) = .stray) → Fronted region (byte :: rest) .stray
  | escape {quote : UInt8} {start : Nat} {rest : Text} :
      Fronted (.quoted quote start) (Byte.backslash :: rest)
        (.passed (.quoted quote start) rest.tail)
  | dollar {quote : UInt8} {start : Nat} {rest : Text} :
      quote ≠ Byte.dollar → rest.head? ≠ some Byte.openBrace →
      Fronted (.quoted quote start) (Byte.dollar :: rest) (.passed (.quoted quote start) rest)
  | single {region next : Region} {byte : UInt8} {rest : Text} :
      (∀ other, front region (byte :: other) = .passed next other) →
      (region.IsProper → next.IsProper) →
      Fronted region (byte :: rest) (.passed next rest)

theorem fronted_ofBrace
    {region next : Region}
    {byte : UInt8}
    (lead : Text)
    {rest : Text}
    (opens : ∀ other, front region (byte :: (lead ++ other)) = .ofBrace next other)
    (proper : region.IsProper → next.IsProper) :
    Fronted region (byte :: (lead ++ rest)) (.ofBrace next rest) := by
  rw [Front.ofBrace]
  cases closed : bracesEnd? rest with
  | none => exact .openBrace opens proper closed
  | some parts => exact .braces opens proper closed

theorem fronted_ofBracket
    {region next : Region}
    {rest : Text}
    (opens : ∀ other, front region (Byte.openBracket :: other) = .ofBracket next other)
    (proper : region.IsProper → next.IsProper) :
    Fronted region (Byte.openBracket :: rest) (.ofBracket next rest) := by
  rw [Front.ofBracket]
  cases closed : bracketsEnd? rest with
  | none => exact .openBracket opens proper closed
  | some parts => exact .brackets opens proper closed

theorem fronted_words
    (atWordStart : Bool)
    (byte : UInt8)
    (rest : Text) :
    Fronted (.words atWordStart) (byte :: rest) (front (.words atWordStart) (byte :: rest)) := by
  have proper : ∀ {flag : Bool}, (Region.words atWordStart).IsProper → (Region.words flag).IsProper :=
    fun _ => Region.isProper_words _
  by_cases startsComment : byte = Byte.hash ∧ atWordStart = true
  · obtain ⟨rfl, rfl⟩ := startsComment
    simp only [front, Bool.and_true, beq_self_eq_true, if_true]
    cases opens : opensBlock (Byte.hash :: rest) with
    | false => exact .comment opens
    | true =>
        cases closed : Text.indexOf? blockEnd rest.tail with
        | none => exact .openComment opens closed
        | some length => exact .block opens closed
  by_cases startsContinuation : byte = Byte.backslash ∧ atWordStart = true
  · obtain ⟨rfl, rfl⟩ := startsContinuation
    cases rest with
    | nil => exact .dangling
    | cons first rest =>
        have notHash : Byte.backslash ≠ Byte.hash := by decide
        cases lineBreak : isLineBreak first with
        | true =>
            simpa [front, lineBreak, notHash] using Fronted.continuation lineBreak
        | false =>
            simpa [front, lineBreak, notHash] using Fronted.backslash lineBreak
  have alone : ∀ other, front (.words atWordStart) (byte :: other) =
      if byte = Byte.openBrace then .ofBrace (.words false) other
      else if byte = Byte.openBracket then .ofBracket (.words false) other
      else if byte = Byte.doubleQuote ∨ byte = Byte.singleQuote then .passed (.quoted byte 0) other
      else if byte = Byte.closeBrace ∨ byte = Byte.closeBracket then .stray
      else .passed (.words (Byte.isSpace byte || Byte.isSeparator byte)) other := by
    intro other
    simp only [front, Bool.and_eq_true, Bool.or_eq_true, beq_iff_eq, startsComment,
      startsContinuation, if_false]
  rw [alone]
  by_cases isBrace : byte = Byte.openBrace
  · simp only [isBrace, if_true] at alone ⊢
    exact fronted_ofBrace [] alone proper
  by_cases isBracket : byte = Byte.openBracket
  · subst isBracket
    simp only [isBrace, if_true, if_false] at alone ⊢
    exact fronted_ofBracket alone proper
  by_cases isQuote : byte = Byte.doubleQuote ∨ byte = Byte.singleQuote
  · simp only [isBrace, isBracket, isQuote, if_true, if_false] at alone ⊢
    exact .single alone fun _ => by simpa [Region.IsProper, Region.openQuote] using isQuote
  by_cases closes : byte = Byte.closeBrace ∨ byte = Byte.closeBracket
  · simp only [isBrace, isBracket, isQuote, closes, if_true, if_false] at alone ⊢
    exact .stray alone
  · simp only [isBrace, isBracket, isQuote, closes, if_false] at alone ⊢
    exact .single alone proper

theorem fronted_quoted
    (quote : UInt8)
    (start : Nat)
    (byte : UInt8)
    (rest : Text) :
    Fronted (.quoted quote start) (byte :: rest) (front (.quoted quote start) (byte :: rest)) := by
  by_cases isBackslash : byte = Byte.backslash
  · subst isBackslash
    exact .escape
  by_cases isQuote : byte = quote
  · subst isQuote
    have ends : ∀ other, front (.quoted byte start) (byte :: other) = .passed (.words false) other :=
      fun other => by simp [front, isBackslash]
    rw [ends]
    exact .single ends fun _ => Region.isProper_words false
  by_cases isBracket : byte = Byte.openBracket
  · subst isBracket
    have opens : ∀ other, front (.quoted quote start) (Byte.openBracket :: other) =
        .ofBracket (.quoted quote start) other :=
      fun other => by simp [front, isBackslash, isQuote]
    rw [opens]
    exact fronted_ofBracket opens id
  by_cases isDollar : byte = Byte.dollar
  · subst isDollar
    by_cases isBrace : rest.head? = some Byte.openBrace
    · obtain ⟨after, rfl⟩ := List.head?_eq_some_iff.mp isBrace
      have opens : ∀ other, front (.quoted quote start) (Byte.dollar :: ([Byte.openBrace] ++ other)) =
          .ofBrace (.quoted quote start) other :=
        fun other => by simp [front, isBackslash, isQuote, isBracket]
      have found := opens after
      rw [List.singleton_append] at found
      rw [found]
      exact fronted_ofBrace [Byte.openBrace] opens id
    · have passes : front (.quoted quote start) (Byte.dollar :: rest) =
          .passed (.quoted quote start) rest := by
        simp [front, isBackslash, isQuote, isBracket, isBrace]
      rw [passes]
      exact .dollar (Ne.symm isQuote) isBrace
  · have passes : ∀ other, front (.quoted quote start) (byte :: other) =
        .passed (.quoted quote start) other :=
      fun other => by simp [front, isBackslash, isQuote, isBracket, isDollar]
    rw [passes]
    exact .single passes id

theorem fronted
    (region : Region)
    (text : Text) :
    Fronted region text (front region text) := by
  cases text with
  | nil =>
      cases region with
      | words atWordStart => exact .ended
      | quoted quote start => exact .openQuote
  | cons byte rest =>
      cases region with
      | words atWordStart => exact fronted_words atWordStart byte rest
      | quoted quote start => exact fronted_quoted quote start byte rest

/-- Nothing else stands at the front. -/
theorem Fronted.front_eq
    {region : Region}
    {text : Text}
    {found : Front}
    (fronted : Fronted region text found) :
    front region text = found := by
  cases fronted with
  | ended | openQuote | dangling | escape =>
      rfl
  | openComment opens closed | block opens closed =>
      simp [front, opens, closed]
  | comment line =>
      simp [front, line]
  | continuation lineBreak =>
      have notHash : Byte.backslash ≠ Byte.hash := by decide
      simp [front, lineBreak, notHash]
  | backslash notLineBreak =>
      have notHash : Byte.backslash ≠ Byte.hash := by decide
      simp [front, notLineBreak, notHash]
  | openBrace opens _ closed | braces opens _ closed =>
      rw [opens, Front.ofBrace, closed]
  | openBracket opens _ closed | brackets opens _ closed =>
      rw [opens, Front.ofBracket, closed]
  | dollar notQuote notBrace =>
      have notOpening : Byte.dollar ≠ Byte.backslash ∧ Byte.dollar ≠ Byte.openBracket := by decide
      simp [front, notQuote.symm, notBrace, notOpening]
  | stray meets | single meets _ =>
      exact meets _

/-- What follows the front is a shorter suffix of the text. -/
theorem Fronted.passed_shorter
    {region next : Region}
    {text rest : Text}
    (found : Fronted region text (.passed next rest)) :
    rest <:+ text ∧ rest.length < text.length := by
  have behind : ∀ {byte : UInt8} {longer shorter : Text}, shorter <:+ longer →
      shorter <:+ byte :: longer ∧ shorter.length < (byte :: longer).length :=
    fun suffix => ⟨suffix.trans (List.suffix_cons _ _), Nat.lt_succ_of_le suffix.length_le⟩
  cases found with
  | block _ _ =>
      exact behind ((List.drop_suffix _ _).trans (List.tail_suffix _))
  | comment _ =>
      exact behind (List.dropWhile_suffix _)
  | continuation _ =>
      exact behind ((List.dropWhile_suffix _).trans (List.suffix_cons _ _))
  | braces _ _ closed =>
      exact behind ((balanced?_sized closed).1.trans (List.suffix_append _ _))
  | escape =>
      exact behind (List.tail_suffix _)
  | backslash _ | dollar _ _ | single _ _ =>
      exact behind List.suffix_rfl

/-- The region behind the front has an open quote only where a quote has been opened. -/
theorem Fronted.passed_proper
    {region next : Region}
    {text rest : Text}
    (found : Fronted region text (.passed next rest))
    (proper : region.IsProper) :
    next.IsProper := by
  cases found with
  | block _ _ | comment _ | continuation _ | backslash _ =>
      exact Region.isProper_words _
  | braces _ keeps _ | single _ keeps =>
      exact keeps proper
  | escape | dollar _ _ =>
      exact proper

/-- Only what is shorter than the text matters to its prospect. -/
theorem Fronted.prospect_congr
    {region : Region}
    {text : Text}
    {found : Front}
    (fronted : Fronted region text found)
    {judge other : Region → Text → Prospect}
    (agree : ∀ region shorter, shorter.length < text.length →
      judge region shorter = other region shorter) :
    found.prospect judge = found.prospect other := by
  cases found with
  | ended | unfinished | stray =>
      rfl
  | openBracket inside =>
      cases fronted with
      | openBracket _ _ _ =>
          simp only [Front.prospect, agree _ inside (Nat.lt_succ_self _)]
  | brackets inside next rest =>
      cases fronted with
      | brackets _ _ closed =>
          have sized := length_of_bracketsEnd? closed
          simp only [List.length_cons] at agree
          simp only [Front.prospect, agree _ inside (by omega), agree _ rest (by omega)]
  | passed next rest =>
      exact agree _ _ fronted.passed_shorter.2

/-- A bound above the length of the text does not matter. -/
theorem prospectWithin_eq
    (bound : Nat) :
    ∀ (other : Nat) (region : Region) (text : Text), text.length < bound → text.length < other →
      prospectWithin bound region text = prospectWithin other region text := by
  induction bound with
  | zero =>
      intro other region text enough
      omega
  | succ bound inductionHypothesis =>
      intro other region text enough enoughOther
      obtain ⟨other, rfl⟩ : ∃ fewer, other = fewer + 1 := ⟨other - 1, by omega⟩
      exact (fronted region text).prospect_congr fun region shorter isShorter =>
        inductionHypothesis other region shorter (by omega) (by omega)

/-- A prospect is found step by step. -/
theorem prospectFrom_eq
    (region : Region)
    (text : Text) :
    prospectFrom region text = (front region text).prospect prospectFrom :=
  (fronted region text).prospect_congr fun _ _ isShorter =>
    prospectWithin_eq _ _ _ _ isShorter (Nat.lt_succ_self _)

/-! ## The checker goes from front to front -/

/-- What has been found lies within the text. -/
theorem length_of_indexFrom
    {needle text : Text}
    {passed found : Nat}
    (isFound : Text.indexFrom needle text passed = some found) :
    passed ≤ found ∧ needle.length + found ≤ text.length + passed := by
  fun_induction Text.indexFrom needle text passed with
  | case1 passed isEmpty =>
      cases isFound
      simp [List.isEmpty_iff.mp isEmpty]
  | case2 passed notEmpty =>
      cases isFound
  | case3 byte rest passed isHere =>
      cases isFound
      exact ⟨Nat.le_refl _, Nat.add_le_add_right (List.isPrefixOf_iff_prefix.mp isHere).length_le _⟩
  | case4 byte rest passed notHere inductionHypothesis =>
      have within := inductionHypothesis isFound
      rw [List.length_cons]
      omega

/-- Where the quote of a region has been opened, if one is open behind a front at an offset. -/
def Region.quoteStart (offset : Nat) : Region → Nat
  | .words _ => offset
  | .quoted _ start => start

/-- The region behind a front: a quote that the front opens starts there. -/
def Region.behind (offset : Nat) (region : Region) : Region → Region
  | .words atWordStart => .words atWordStart
  | .quoted quote _ => .quoted quote (region.quoteStart offset)

/-- The flaw of a text with something other than a bracket open at its front. -/
def unfinishedFlaw (offset : Nat) : Region → Text → SyntaxError
  | .quoted _ start, [] => ⟨.openQuote, start⟩
  | .quoted _ _, _ :: _ => ⟨.openBrace, offset + 1⟩
  | .words _, text =>
      ⟨if text.head? = some Byte.hash then .openComment
        else if text.head? = some Byte.backslash then .danglingContinuation
        else .openBrace, offset⟩

/-- The first flaw of a text from what stands at its front, given that of what is shorter. -/
def Front.flaw (judge : Region → Nat → Text → Option SyntaxError) (region : Region) (offset : Nat)
    (text : Text) : Front → Option SyntaxError
  | .ended => none
  | .unfinished => some (unfinishedFlaw offset region text)
  | .stray => text.head?.map fun byte => ⟨.strayCloser byte, offset⟩
  | .openBracket _ => some ⟨.openBracket, offset⟩
  | .brackets inside next rest =>
      (judge (.words true) (offset + 1) inside).or
        (judge (region.behind offset next) (offset + inside.length + 2) rest)
  | .passed next rest =>
      judge (region.behind offset next) (offset + text.length - rest.length) rest

/-- At the end of a text the offset does not matter. -/
theorem scan_nil
    (bound : Nat)
    (region : Region)
    (offset other : Nat) :
    scan bound region offset [] = scan bound region other [] := by
  cases bound <;> cases region <;> rfl

theorem length_takeWhile_add
    (accept : UInt8 → Bool)
    (text : Text) :
    (text.takeWhile accept).length + (text.dropWhile accept).length = text.length := by
  rw [← List.length_append, List.takeWhile_append_dropWhile]

/-- What stands in brackets comes before what is behind them. -/
theorem scan_ofBracket
    (bound : Nat)
    (region next : Region)
    (offset : Nat)
    (rest : Text) :
    (match bracketsEnd? rest with
      | none => some ⟨.openBracket, offset⟩
      | some (inside, after) =>
          match scan bound (.words true) (offset + 1) inside with
          | some found => some found
          | none =>
              scan bound (region.behind offset next) (offset + inside.length + 2) after) =
      (Front.ofBracket next rest).flaw (scan bound) region offset (Byte.openBracket :: rest) := by
  rw [Front.ofBracket]
  cases bracketsEnd? rest with
  | none => rfl
  | some parts =>
      simp only [Front.flaw]
      cases scan bound (.words true) (offset + 1) parts.1 <;> rfl

/-- What is passed comes before what is behind it, which is scanned at its own place. -/
theorem scan_ofPassed
    (bound : Nat)
    (region next : Region)
    {offset place : Nat}
    {byte : UInt8}
    {rest shorter : Text}
    (sized : place + shorter.length = offset + rest.length + 1) :
    scan bound (region.behind offset next) place shorter =
      (Front.passed next shorter).flaw (scan bound) region offset (byte :: rest) := by
  rw [Front.flaw, List.length_cons]
  congr 1
  omega

theorem scan_succ_words
    (bound : Nat)
    (atWordStart : Bool)
    (offset : Nat)
    (byte : UInt8)
    (rest : Text) :
    scan (bound + 1) (.words atWordStart) offset (byte :: rest) =
      (front (.words atWordStart) (byte :: rest)).flaw (scan bound) (.words atWordStart) offset
        (byte :: rest) := by
  simp only [scan, front]
  split
  · rename_i startsComment
    have isHash : byte = Byte.hash := by simpa using (Bool.and_eq_true_iff.mp startsComment).1
    split
    · cases closed : Text.indexOf? blockEnd rest.tail with
      | none => simp [Front.flaw, unfinishedFlaw, isHash]
      | some length =>
          have sized := (length_of_indexFrom closed).2
          simp only [blockEnd, List.length_cons, List.length_nil, List.length_tail] at sized
          refine scan_ofPassed bound (.words atWordStart) (.words true) ?_
          rw [List.length_drop, List.length_tail]
          omega
    · have sized := length_takeWhile_add (fun next => !Byte.isSeparator next) rest
      rw [drop_length_takeWhile]
      refine scan_ofPassed bound (.words atWordStart) (.words true) ?_
      omega
  · split
    · rename_i startsContinuation
      have isBackslash : byte = Byte.backslash := by
        simpa using (Bool.and_eq_true_iff.mp startsContinuation).1
      cases rest with
      | nil =>
          have notHash : Byte.backslash ≠ Byte.hash := by decide
          simp [Front.flaw, unfinishedFlaw, isBackslash, notHash]
      | cons next rest =>
          simp only
          split
          · have sized := length_takeWhile_add isLineBreak (next :: rest)
            rw [drop_length_takeWhile]
            refine scan_ofPassed bound (.words atWordStart) (.words true) ?_
            omega
          · exact scan_ofPassed bound (.words atWordStart) (.words false) (by omega)
    · split
      · rename_i isBrace
        have notMarks : Byte.openBrace ≠ Byte.hash ∧ Byte.openBrace ≠ Byte.backslash := by decide
        rw [Front.ofBrace]
        cases closed : bracesEnd? rest with
        | none =>
            simp [Front.flaw, unfinishedFlaw, eq_of_beq isBrace, notMarks]
        | some parts =>
            have sized := length_of_bracesEnd? closed
            exact scan_ofPassed bound (.words atWordStart) (.words false) (by omega)
      · split
        · rename_i isBracket
          rw [eq_of_beq isBracket]
          exact scan_ofBracket bound _ (.words false) offset rest
        · split
          · exact scan_ofPassed bound (.words atWordStart) (.quoted byte 0) (by omega)
          · split
            · rfl
            · exact scan_ofPassed bound (.words atWordStart) (.words _) (by omega)

theorem scan_succ_quoted
    (bound : Nat)
    (quote : UInt8)
    (start offset : Nat)
    (byte : UInt8)
    (rest : Text) :
    scan (bound + 1) (.quoted quote start) offset (byte :: rest) =
      (front (.quoted quote start) (byte :: rest)).flaw (scan bound) (.quoted quote start) offset
        (byte :: rest) := by
  simp only [scan, front]
  split
  · cases rest with
    | nil => exact scan_nil bound _ _ _
    | cons next rest =>
        refine scan_ofPassed bound (.quoted quote start) (.quoted quote start) ?_
        simp only [List.tail_cons, List.length_cons]
        omega
  · split
    · exact scan_ofPassed bound (.quoted quote start) (.words false) (by omega)
    · split
      · rename_i isBracket
        rw [eq_of_beq isBracket]
        exact scan_ofBracket bound (.quoted quote start) (.quoted quote start) offset rest
      · split
        · rename_i startsVariable
          have isMore := (Bool.and_eq_true_iff.mp startsVariable).2
          obtain ⟨after, rfl⟩ := List.head?_eq_some_iff.mp (eq_of_beq isMore)
          rw [List.tail_cons, Front.ofBrace]
          cases closed : bracesEnd? after with
          | none => rfl
          | some parts =>
              have sized := length_of_bracesEnd? closed
              refine scan_ofPassed bound (.quoted quote start) (.quoted quote start) ?_
              rw [List.length_cons]
              omega
        · exact scan_ofPassed bound (.quoted quote start) (.quoted quote start) (by omega)

/-- The checker goes on from the front of a text. -/
theorem scan_succ
    (bound : Nat)
    (region : Region)
    (offset : Nat)
    (text : Text) :
    scan (bound + 1) region offset text =
      (front region text).flaw (scan bound) region offset text := by
  cases text with
  | nil => cases region <;> rfl
  | cons byte rest =>
      cases region with
      | words atWordStart => exact scan_succ_words bound atWordStart offset byte rest
      | quoted quote start => exact scan_succ_quoted bound quote start offset byte rest

/-- Only what is shorter than the text matters to its first flaw. -/
theorem Fronted.flaw_congr
    {region : Region}
    {text : Text}
    {found : Front}
    (fronted : Fronted region text found)
    {judge other : Region → Nat → Text → Option SyntaxError}
    (agree : ∀ region offset shorter, shorter.length < text.length →
      judge region offset shorter = other region offset shorter)
    (offset : Nat) :
    found.flaw judge region offset text = found.flaw other region offset text := by
  cases found with
  | ended | unfinished | stray | openBracket =>
      rfl
  | brackets inside next rest =>
      cases fronted with
      | brackets _ _ closed =>
          have sized := length_of_bracketsEnd? closed
          simp only [List.length_cons] at agree
          simp only [Front.flaw, agree _ _ inside (by omega), agree _ _ rest (by omega)]
  | passed next rest =>
      exact agree _ _ _ fronted.passed_shorter.2

/-- A bound above the length of the text does not matter to the checker. -/
theorem scan_eq
    (bound : Nat) :
    ∀ (other : Nat) (region : Region) (offset : Nat) (text : Text),
      text.length < bound → text.length < other →
        scan bound region offset text = scan other region offset text := by
  induction bound with
  | zero =>
      intro other region offset text enough
      omega
  | succ bound inductionHypothesis =>
      intro other region offset text enough enoughOther
      obtain ⟨other, rfl⟩ : ∃ fewer, other = fewer + 1 := ⟨other - 1, by omega⟩
      rw [scan_succ, scan_succ]
      exact (fronted region text).flaw_congr
        (fun region offset shorter isShorter =>
          inductionHypothesis other region offset shorter (by omega) (by omega)) offset

/-- The first flaw of a text in a region, at offsets that go on from one. -/
def flawFrom (region : Region) (offset : Nat) (text : Text) : Option SyntaxError :=
  scan (text.length + 1) region offset text

/-- The first flaw is found step by step. -/
theorem flawFrom_eq
    (region : Region)
    (offset : Nat)
    (text : Text) :
    flawFrom region offset text = (front region text).flaw flawFrom region offset text :=
  (scan_succ _ _ _ _).trans <|
    (fronted region text).flaw_congr
      (fun _ _ _ isShorter => scan_eq _ _ _ _ _ isShorter (Nat.lt_succ_self _)) offset

/-! ## The checker accepts what is complete -/

/-- A region without the place of its open quote. -/
def Region.unplaced : Region → Region
  | .words atWordStart => .words atWordStart
  | .quoted quote _ => .quoted quote 0

theorem Region.unplaced_behind
    (region next : Region)
    (offset : Nat) :
    (region.behind offset next).unplaced = next.unplaced := by
  cases region <;> cases next <;> rfl

/-- A front without the places of open quotes. -/
def Front.unplaced : Front → Front
  | .brackets inside region rest => .brackets inside region.unplaced rest
  | .passed region rest => .passed region.unplaced rest
  | found => found

theorem Front.unplaced_ofBracket
    (region : Region)
    (rest : Text) :
    (Front.ofBracket region rest).unplaced = .ofBracket region.unplaced rest := by
  rw [Front.ofBracket, Front.ofBracket]
  cases bracketsEnd? rest <;> rfl

theorem Front.unplaced_ofBrace
    (region : Region)
    (rest : Text) :
    (Front.ofBrace region rest).unplaced = .ofBrace region.unplaced rest := by
  rw [Front.ofBrace, Front.ofBrace]
  cases bracesEnd? rest <;> rfl

/-- Where a quote has been opened does not matter to what is at the front. -/
theorem front_unplaced
    (region : Region)
    (text : Text) :
    front region.unplaced text = (front region text).unplaced := by
  cases text with
  | nil => cases region <;> rfl
  | cons byte rest =>
      cases region with
      | words atWordStart =>
          simp only [front, Region.unplaced]
          split
          · split
            · split <;> rfl
            · rfl
          · split
            · cases rest with
              | nil => rfl
              | cons next rest => simp only; split <;> rfl
            · split
              · rw [Front.unplaced_ofBrace]; rfl
              · split
                · rw [Front.unplaced_ofBracket]; rfl
                · split
                  · rfl
                  · split <;> rfl
      | quoted quote start =>
          simp only [front, Region.unplaced]
          split
          · rfl
          · split
            · rfl
            · split
              · rw [Front.unplaced_ofBracket]; rfl
              · split
                · rw [Front.unplaced_ofBrace]; rfl
                · rfl

theorem Front.flaw_unplaced
    (judge : Region → Nat → Text → Option SyntaxError)
    (region : Region)
    (offset : Nat)
    (text : Text)
    (found : Front) :
    found.unplaced.flaw judge region offset text = found.flaw judge region offset text := by
  have samePlace : ∀ next : Region, region.behind offset next.unplaced = region.behind offset next :=
    fun next => by cases next <;> rfl
  cases found <;> simp only [Front.unplaced, Front.flaw, samePlace]

/-- The checker finds no flaw exactly in the complete texts. -/
theorem flawFrom_eq_none_iff
    (region : Region)
    (offset : Nat)
    (text : Text) :
    flawFrom region offset text = none ↔ prospectFrom region.unplaced text = .complete := by
  induction size : text.length using Nat.strongRecOn generalizing region offset text with
  | _ size inductionHypothesis =>
      subst size
      have found := fronted region text
      rw [flawFrom_eq, prospectFrom_eq, front_unplaced]
      generalize front region text = met at found
      cases met with
      | ended | unfinished =>
          simp [Front.flaw, Front.unplaced, Front.prospect]
      | stray =>
          cases found with
          | stray => simp [Front.flaw, Front.unplaced, Front.prospect]
      | openBracket inside =>
          simp only [Front.flaw, Front.unplaced, Front.prospect, reduceCtorEq, false_iff]
          split <;> simp
      | brackets inside next rest =>
          cases found with
          | brackets _ _ closed =>
              have sized := length_of_bracketsEnd? closed
              have isInside := inductionHypothesis inside.length (by rw [List.length_cons]; omega)
                (.words true) (offset + 1) inside rfl
              have isBehind := inductionHypothesis rest.length (by rw [List.length_cons]; omega)
                (region.behind offset next) (offset + inside.length + 2) rest rfl
              rw [Region.unplaced_behind] at isBehind
              simp only [Region.unplaced] at isInside
              simp only [Front.flaw, Front.unplaced, Front.prospect, Option.or_eq_none_iff,
                isInside, isBehind]
              by_cases whole : prospectFrom (.words true) inside = .complete <;> simp [whole]
      | passed next rest =>
          have isBehind := inductionHypothesis rest.length found.passed_shorter.2
            (region.behind offset next) (offset + text.length - rest.length) rest rfl
          rw [Region.unplaced_behind] at isBehind
          exact isBehind

/-- The checker accepts exactly the complete scripts. -/
theorem check_eq_none_iff
    (code : Text) :
    check code = none ↔ prospect code = .complete :=
  flawFrom_eq_none_iff (.words true) 0 code

end LittleScript.Source
