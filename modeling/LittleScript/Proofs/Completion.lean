import LittleScript.Proofs.Prospect
import LittleScript.Repl.Chunk
import Mathlib.Data.List.TakeWhile

namespace LittleScript.Source

/-!
# Completing a script

What stands at the front of a text stays there when the text becomes longer, so a hopeless text
stays hopeless.  Every other text is completed by one more line: what is open is closed from the
inside to the outside, and a stretch in braces makes up for brackets that only the search for the
end of the outer ones counts.  The prospect therefore tells exactly which scripts some further text
completes.
-/

/-! ## Longer texts -/

/-- The level at the end of a text that starts at a level, unless it falls below the outermost. -/
def levelAfter (opener closer : UInt8) : Nat → Text → Option Nat
  | level, [] => some level
  | level, byte :: rest =>
      if byte == opener then levelAfter opener closer (level + 1) rest
      else if byte == closer then
        match level with
        | 0 => none
        | outer + 1 => levelAfter opener closer outer rest
      else levelAfter opener closer level rest

/-- The level at the end of a longer text goes on from that of the text. -/
theorem levelAfter_append
    {opener closer : UInt8}
    (level : Nat)
    (text more : Text) :
    levelAfter opener closer level (text ++ more) =
      (levelAfter opener closer level text).bind (levelAfter opener closer · more) := by
  fun_induction levelAfter opener closer level text <;> simp_all [levelAfter]

/-- What has been found first in a text is found first in a longer one. -/
theorem indexFrom_append
    {needle text : Text}
    {passed found : Nat}
    (isFound : Text.indexFrom needle text passed = some found)
    (more : Text) :
    Text.indexFrom needle (text ++ more) passed = some found := by
  fun_induction Text.indexFrom needle text passed with
  | case1 passed isEmpty =>
      rw [List.isEmpty_iff] at isEmpty
      subst isEmpty
      cases more <;> simpa [Text.indexFrom] using isFound
  | case2 passed notEmpty =>
      cases isFound
  | case3 byte rest passed isHere =>
      have stays : needle.isPrefixOf (byte :: (rest ++ more)) = true := by
        rw [List.isPrefixOf_iff_prefix] at isHere ⊢
        exact isHere.trans (List.prefix_append (byte :: rest) more)
      simpa [Text.indexFrom, stays] using isFound
  | case4 byte rest passed notHere inductionHypothesis =>
      have stays : needle.isPrefixOf (byte :: (rest ++ more)) = false := by
        rw [Bool.eq_false_iff]
        intro isHere
        apply notHere
        rw [List.isPrefixOf_iff_prefix] at isHere ⊢
        have within := length_of_indexFrom isFound
        exact List.prefix_of_prefix_length_le isHere (List.prefix_append (byte :: rest) more)
          (by rw [List.length_cons]; omega)
      simpa [Text.indexFrom, stays] using inductionHypothesis isFound

/-- A block comment that is open ends at the mark on the next line. -/
theorem indexFrom_blockEnd
    {text : Text}
    {passed : Nat}
    (missing : Text.indexFrom blockEnd text passed = none)
    (more : Text) :
    Text.indexFrom blockEnd (text ++ Byte.newline :: (blockEnd ++ more)) passed =
      some (passed + text.length + 1) := by
  fun_induction Text.indexFrom blockEnd text passed with
  | case1 passed isEmpty =>
      cases missing
  | case2 passed notEmpty =>
      rfl
  | case3 byte rest passed isHere =>
      cases missing
  | case4 byte rest passed notHere inductionHypothesis =>
      have stays :
          blockEnd.isPrefixOf (byte :: (rest ++ Byte.newline :: (blockEnd ++ more))) = false := by
        cases rest with
        | nil =>
            simp only [blockEnd, List.isPrefixOf, List.nil_append, Bool.and_eq_false_imp]
            exact fun _ => by decide
        | cons next rest => simpa [blockEnd, List.isPrefixOf] using notHere
      rw [List.cons_append, Text.indexFrom, if_neg (by simp [stays]), inductionHypothesis missing,
        List.length_cons]
      congr 1
      omega

/-- Whether a region goes on behind its text in the same way when the text becomes longer. -/
def GoesOn (rest more : Text) : Prop :=
  rest ≠ [] ∨ more.head? = some Byte.newline

theorem dropWhile_append_of_goesOn
    {accept : UInt8 → Bool}
    {text more : Text}
    (stops : accept Byte.newline = false)
    (goesOn : GoesOn (text.dropWhile accept) more) :
    (text ++ more).dropWhile accept = text.dropWhile accept ++ more := by
  rw [List.dropWhile_append]
  split
  · rename_i ended
    rw [List.isEmpty_iff] at ended
    rcases goesOn with isMore | isNewline
    · exact absurd ended isMore
    · obtain ⟨after, rfl⟩ := List.head?_eq_some_iff.mp isNewline
      rw [ended, List.dropWhile_cons_of_neg (by simp [stops])]
      rfl
  · rfl

theorem isLineBreak_iff
    {byte : UInt8} :
    isLineBreak byte = true ↔ byte = Byte.newline ∨ byte = Byte.carriageReturn := by
  simp [isLineBreak]

/-- A region passes line breaks, but inside a word they change it. -/
theorem front_lineBreak
    {region : Region}
    (proper : region.IsProper)
    (notInside : region ≠ .words false)
    {byte : UInt8}
    (lineBreak : isLineBreak byte = true)
    (rest : Text) :
    front region (byte :: rest) = .passed region rest := by
  cases region with
  | words atWordStart =>
      cases atWordStart with
      | false => exact absurd rfl notInside
      | true => rcases isLineBreak_iff.mp lineBreak with rfl | rfl <;> rfl
  | quoted quote start =>
      have isQuote := proper _ rfl
      rcases isLineBreak_iff.mp lineBreak with rfl | rfl <;> rcases isQuote with rfl | rfl <;> rfl

theorem prospectFrom_of_passed
    {region next : Region}
    {text rest : Text}
    (passes : front region text = .passed next rest) :
    prospectFrom region text = prospectFrom next rest := by
  rw [prospectFrom_eq, passes]
  rfl

/-- Line breaks do not matter, except inside a word. -/
theorem prospectFrom_lineBreaks
    {region : Region}
    (proper : region.IsProper)
    (notInside : region ≠ .words false)
    (breaks : Text)
    (lineBreaks : ∀ byte ∈ breaks, isLineBreak byte = true)
    (rest : Text) :
    prospectFrom region (breaks ++ rest) = prospectFrom region rest := by
  induction breaks with
  | nil =>
      rfl
  | cons byte breaks inductionHypothesis =>
      have isFirst := lineBreaks byte List.mem_cons_self
      rw [List.cons_append, prospectFrom_of_passed (front_lineBreak proper notInside isFirst _)]
      exact inductionHypothesis fun other member => lineBreaks other (List.mem_cons_of_mem _ member)

/-- The line breaks at the start of a line do not matter. -/
theorem prospectFrom_dropWhile
    (text : Text) :
    prospectFrom (.words true) (text.dropWhile isLineBreak) = prospectFrom (.words true) text := by
  have skipped := prospectFrom_lineBreaks (Region.isProper_words true) (by simp)
    (text.takeWhile isLineBreak) (fun _ member => List.mem_takeWhile_imp member)
    (text.dropWhile isLineBreak)
  rw [List.takeWhile_append_dropWhile] at skipped
  exact skipped.symm

/-- A line break that a quote passes does not matter. -/
theorem prospectFrom_quoted_newline
    {quote : UInt8}
    {start : Nat}
    (proper : (Region.quoted quote start).IsProper)
    (more : Text) :
    prospectFrom (.quoted quote start) (Byte.newline :: more) =
      prospectFrom (.quoted quote start) more :=
  prospectFrom_lineBreaks proper (by simp) [Byte.newline] (by simp [isLineBreak]) more

/--
What stands at the front of a text stays there when the text becomes longer.  Line breaks may be
passed with it where the text has ended behind the front.
-/
theorem Fronted.front_append
    {region next : Region}
    {text rest : Text}
    (found : Fronted region text (.passed next rest))
    {more : Text}
    (goesOn : GoesOn rest more) :
    ∃ breaks other : Text,
      rest ++ more = breaks ++ other ∧ front region (text ++ more) = .passed next other ∧
        (∀ byte ∈ breaks, isLineBreak byte = true) ∧ (breaks ≠ [] → next ≠ .words false) := by
  have stays : front region (text ++ more) = .passed next (rest ++ more) →
      ∃ breaks other : Text,
        rest ++ more = breaks ++ other ∧ front region (text ++ more) = .passed next other ∧
          (∀ byte ∈ breaks, isLineBreak byte = true) ∧ (breaks ≠ [] → next ≠ .words false) :=
    fun isFront => ⟨[], _, rfl, isFront, by simp, absurd rfl⟩
  cases found with
  | @block rest length opens closed =>
      have sized : length + 2 ≤ rest.tail.length := by
        simpa [blockEnd, Nat.add_comm] using (length_of_indexFrom closed).2
      have isMore : rest.tail ≠ [] := List.ne_nil_of_length_pos (by omega)
      have tail : (rest ++ more).tail = rest.tail ++ more :=
        List.tail_append_of_ne_nil fun isNil => isMore (by rw [isNil]; rfl)
      have longer : Fronted (.words true) (Byte.hash :: (rest ++ more))
          (.passed (.words true) ((rest ++ more).tail.drop (length + 2))) :=
        .block ((opensBlock_append _ isMore more).trans opens)
          (by rw [tail]; exact indexFrom_append closed more)
      rw [tail, List.drop_append_of_le_length sized] at longer
      exact stays longer.front_eq
  | @comment rest line =>
      have isLine : opensBlock (Byte.hash :: (rest ++ more)) = false := by
        rcases goesOn with isMore | isNewline
        · exact opensBlock_append_of_not line (fun isNil => isMore (by rw [isNil]; rfl)) more
        · obtain ⟨after, rfl⟩ := List.head?_eq_some_iff.mp isNewline
          exact (opensBlock_append_newline (_ :: rest) after).trans line
      have longer := Fronted.comment isLine
      rw [dropWhile_append_of_goesOn (by decide) goesOn] at longer
      exact stays longer.front_eq
  | @continuation first rest lineBreak =>
      have longer : front (.words true) (Byte.backslash :: first :: (rest ++ more)) =
          .passed (.words true) ((rest ++ more).dropWhile isLineBreak) :=
        (Fronted.continuation lineBreak).front_eq
      by_cases ended : rest.dropWhile isLineBreak = []
      · have dropped : (rest ++ more).dropWhile isLineBreak = more.dropWhile isLineBreak := by
          rw [List.dropWhile_append, if_pos (List.isEmpty_iff.mpr ended)]
        refine ⟨more.takeWhile isLineBreak, more.dropWhile isLineBreak, ?_, dropped ▸ longer,
          fun _ member => List.mem_takeWhile_imp member, by simp⟩
        rw [ended, List.takeWhile_append_dropWhile, List.nil_append]
      · have dropped : (rest ++ more).dropWhile isLineBreak =
            rest.dropWhile isLineBreak ++ more := by
          rw [List.dropWhile_append, if_neg (by simpa using ended)]
        exact stays (dropped ▸ longer)
  | backslash notLineBreak =>
      exact stays (Fronted.backslash notLineBreak).front_eq
  | @braces region next byte lead rest inside after opens keeps closed =>
      have longer := Fronted.braces opens keeps (balanced?_append closed more)
      rw [← List.append_assoc] at longer
      exact stays longer.front_eq
  | @escape quote start rest =>
      cases rest with
      | nil =>
          rcases goesOn with isMore | isNewline
          · exact absurd rfl isMore
          · obtain ⟨after, rfl⟩ := List.head?_eq_some_iff.mp isNewline
            exact ⟨[Byte.newline], after, rfl, rfl, by simp [isLineBreak], by simp⟩
      | cons first rest =>
          exact stays rfl
  | @dollar quote start rest notQuote notBrace =>
      have noBrace : (rest ++ more).head? ≠ some Byte.openBrace := by
        rw [List.head?_append]
        rcases goesOn with isMore | isNewline
        · rw [Option.or_of_isSome (List.isSome_head?.mpr isMore)]
          exact notBrace
        · rw [isNewline]
          cases rest with
          | nil => decide
          | cons first rest => exact notBrace
      exact stays (Fronted.dollar notQuote noBrace).front_eq
  | single passes _ =>
      exact stays (passes _)

/-- A longer text has the prospect of what follows its front. -/
theorem Fronted.prospectFrom_append
    {region next : Region}
    {text rest : Text}
    (found : Fronted region text (.passed next rest))
    (proper : region.IsProper)
    {more : Text}
    (goesOn : GoesOn rest more) :
    prospectFrom region (text ++ more) = prospectFrom next (rest ++ more) := by
  obtain ⟨breaks, other, isBehind, isFront, lineBreaks, notInside⟩ := found.front_append goesOn
  rw [prospectFrom_of_passed isFront, isBehind]
  by_cases noBreaks : breaks = []
  · rw [noBreaks, List.nil_append]
  · exact (prospectFrom_lineBreaks (found.passed_proper proper) (notInside noBreaks) breaks
      lineBreaks other).symm

/-! ## Levels -/

section Levels

variable {opener closer : UInt8}

theorem levelAfter_opener
    (level : Nat)
    (rest : Text) :
    levelAfter opener closer level (opener :: rest) = levelAfter opener closer (level + 1) rest := by
  simp [levelAfter]

theorem levelAfter_cons
    {byte : UInt8}
    (neither : byte ≠ opener ∧ byte ≠ closer)
    (level : Nat)
    (rest : Text) :
    levelAfter opener closer level (byte :: rest) = levelAfter opener closer level rest := by
  simp [levelAfter, neither]

/-- Bytes that neither open nor close leave the level as it is. -/
theorem levelAfter_of_neither
    {text : Text}
    (neither : ∀ byte ∈ text, byte ≠ opener ∧ byte ≠ closer)
    (level : Nat) :
    levelAfter opener closer level text = some level := by
  induction text with
  | nil =>
      rfl
  | cons byte rest inductionHypothesis =>
      rw [levelAfter_cons (neither byte (by simp))]
      exact inductionHypothesis fun other member => neither other (by simp [member])

/-- Closers lower the level one by one. -/
theorem levelAfter_closers
    (different : closer ≠ opener)
    (level count : Nat) :
    levelAfter opener closer (level + count) (List.replicate count closer) = some level := by
  induction count with
  | zero =>
      rfl
  | succ count inductionHypothesis =>
      simpa [List.replicate_succ, levelAfter, different] using inductionHypothesis

/-- A text keeps its distance from the level it starts at. -/
theorem levelAfter_add
    {level final : Nat}
    {text : Text}
    (ends : levelAfter opener closer level text = some final)
    (outer : Nat) :
    levelAfter opener closer (level + outer) text = some (final + outer) := by
  fun_induction levelAfter opener closer level text <;>
    simp_all [levelAfter, Nat.add_right_comm]

/-- A closer that is missing has not been passed. -/
theorem levelAfter_of_missing
    {level : Nat}
    {text passed : Text}
    (missing : balanced? opener closer level text passed = none) :
    ∃ final, levelAfter opener closer level text = some final := by
  fun_induction balanced? opener closer level text passed <;> simp_all [levelAfter]

/-- The closer is looked for behind a text that does not hold it. -/
theorem balanced?_of_level
    {level final : Nat}
    {text : Text}
    (ends : levelAfter opener closer level text = some final)
    (passed more : Text) :
    balanced? opener closer level (text ++ more) passed =
      balanced? opener closer final more (text.reverse ++ passed) := by
  fun_induction levelAfter opener closer level text generalizing passed <;>
    simp_all [balanced?]

/-- The closer is found behind a text that ends at the level it starts at. -/
theorem balanced?_of_level_zero
    (different : closer ≠ opener)
    {text : Text}
    (ends : levelAfter opener closer 0 text = some 0)
    (more : Text) :
    balanced? opener closer 0 (text ++ closer :: more) [] = some (text, more) := by
  rw [balanced?_of_level ends]
  simp [balanced?, different]

theorem prefix_of_balanced?
    {level : Nat}
    {text passed inside after : Text}
    (found : balanced? opener closer level text passed = some (inside, after)) :
    passed.reverse <+: inside := by
  have goesOn : ∀ {byte : UInt8} {passed : Text}, (byte :: passed).reverse <+: inside →
      passed.reverse <+: inside := by
    intro byte passed longer
    rw [List.reverse_cons] at longer
    exact (List.prefix_append _ _).trans longer
  fun_induction balanced? opener closer level text passed with
  | case1 =>
      cases found
  | case2 _ _ _ _ _ inductionHypothesis | case4 _ _ _ _ _ _ inductionHypothesis
  | case5 _ _ _ _ _ _ inductionHypothesis =>
      exact goesOn (inductionHypothesis found)
  | case3 =>
      cases found
      exact List.prefix_rfl

end Levels

/-! ## Hopeless texts -/

/-- Where a bracket is still open, everything behind it is inside of it. -/
theorem prefix_of_bracketsEnd?_append
    {text more inside after : Text}
    (missing : bracketsEnd? text = none)
    (closed : bracketsEnd? (text ++ more) = some (inside, after)) :
    text <+: inside := by
  obtain ⟨final, ends⟩ := levelAfter_of_missing missing
  rw [bracketsEnd?, balanced?_of_level ends] at closed
  simpa using prefix_of_balanced? closed

/-- An empty text is not hopeless. -/
theorem prospectFrom_nil_ne
    (region : Region) :
    prospectFrom region [] ≠ .hopeless := by
  cases region <;> exact Prospect.noConfusion

/-- What stands behind an open bracket decides whether there is hope. -/
theorem prospect_openBracket_iff
    (judge : Region → Text → Prospect)
    (inside : Text) :
    (Front.openBracket inside).prospect judge = .hopeless ↔
      judge (.words true) inside = .hopeless := by
  by_cases hopeless : judge (.words true) inside = .hopeless <;> simp [Front.prospect, hopeless]

/-- A hopeless text stays so whatever follows it. -/
theorem hopeless_append
    {region : Region}
    {text : Text}
    (proper : region.IsProper)
    (hopeless : prospectFrom region text = .hopeless)
    (more : Text) :
    prospectFrom region (text ++ more) = .hopeless := by
  induction size : text.length using Nat.strongRecOn generalizing region text more with
  | _ size inductionHypothesis =>
      subst size
      have found := fronted region text
      rw [prospectFrom_eq] at hopeless
      generalize front region text = met at found hopeless
      cases met with
      | ended | unfinished =>
          cases hopeless
      | stray =>
          cases found with
          | stray meets =>
              rw [prospectFrom_eq, List.cons_append, meets]
              rfl
      | openBracket inside =>
          cases found with
          | openBracket opens _ missing =>
              have stays : ∀ added, prospectFrom (.words true) (inside ++ added) = .hopeless :=
                fun added => inductionHypothesis _ (Nat.lt_succ_self _) (Region.isProper_words true)
                  ((prospect_openBracket_iff _ _).mp hopeless) added rfl
              rw [prospectFrom_eq, List.cons_append, opens, Front.ofBracket]
              cases closed : bracketsEnd? (inside ++ more) with
              | none =>
                  exact (prospect_openBracket_iff _ _).mpr (stays more)
              | some parts =>
                  obtain ⟨added, isInside⟩ := prefix_of_bracketsEnd?_append missing closed
                  simp [Front.prospect, ← isInside, stays added]
      | brackets inside next rest =>
          cases found with
          | brackets opens keeps closed =>
              have shorter := (balanced?_sized closed).1.length_le
              rw [prospectFrom_eq, List.cons_append, opens, Front.ofBracket, bracketsEnd?,
                balanced?_append closed]
              simp only [Front.prospect] at hopeless ⊢
              by_cases whole : prospectFrom (.words true) inside = .complete
              · rw [if_pos whole] at hopeless ⊢
                exact inductionHypothesis _ (Nat.lt_succ_of_le shorter) (keeps proper) hopeless
                  more rfl
              · rw [if_neg whole]
      | passed next rest =>
          have isMore : rest ≠ [] := by
            rintro rfl
            exact prospectFrom_nil_ne next hopeless
          rw [found.prospectFrom_append proper (.inl isMore)]
          exact inductionHypothesis _ found.passed_shorter.2 (found.passed_proper proper) hopeless
            more rfl

/-! ## Completions -/

/-- How many brackets are open at the end of a text that starts inside so many. -/
def bracketLevel : Nat → Text → Option Nat :=
  levelAfter Byte.openBracket Byte.closeBracket

/--
`Completes region text line`: with one more line the text is complete, whatever follows, and the
line closes no bracket that was open before the text.
-/
structure Completes (region : Region) (text line : Text) : Prop where
  whole : ∀ more, prospectFrom region (text ++ Byte.newline :: (line ++ more)) =
    prospectFrom (.words true) more
  level : ∀ level, (bracketLevel level text).isSome = true →
    (bracketLevel level (text ++ Byte.newline :: line)).isSome = true

/-- What closes a region. -/
def Region.closing : Region → Text
  | .words _ => [Byte.newline]
  | .quoted quote _ => [quote, Byte.newline]

theorem prospectFrom_newline
    (atWordStart : Bool)
    (more : Text) :
    prospectFrom (.words atWordStart) (Byte.newline :: more) = prospectFrom (.words true) more :=
  prospectFrom_of_passed rfl

theorem prospectFrom_closing
    {region : Region}
    (proper : region.IsProper)
    (more : Text) :
    prospectFrom region (region.closing ++ more) = prospectFrom (.words true) more := by
  cases region with
  | words atWordStart =>
      exact prospectFrom_newline atWordStart more
  | quoted quote start =>
      have ends : front (.quoted quote start) (quote :: Byte.newline :: more) =
          .passed (.words false) (Byte.newline :: more) := by
        rcases proper _ rfl with rfl | rfl <;> rfl
      exact (prospectFrom_of_passed ends).trans (prospectFrom_newline false more)

/-- Bytes other than brackets at the end keep the level. -/
theorem isSome_bracketLevel_append
    {text line : Text}
    (neither : ∀ byte ∈ line, byte ≠ Byte.openBracket ∧ byte ≠ Byte.closeBracket)
    {level : Nat}
    (isSome : (bracketLevel level text).isSome = true) :
    (bracketLevel level (text ++ line)).isSome = true := by
  obtain ⟨final, ends⟩ := Option.isSome_iff_exists.mp isSome
  rw [bracketLevel] at ends ⊢
  rw [levelAfter_append, ends, Option.bind_some, levelAfter_of_neither neither]
  rfl

theorem Region.closing_neither
    {region : Region}
    (proper : region.IsProper) :
    ∀ byte ∈ region.closing, byte ≠ Byte.openBracket ∧ byte ≠ Byte.closeBracket := by
  intro byte member
  cases region with
  | words atWordStart =>
      rw [Region.closing, List.mem_singleton] at member
      subst member
      decide
  | quoted quote start =>
      simp only [Region.closing, List.mem_cons, List.not_mem_nil, or_false] at member
      rcases proper _ rfl with rfl | rfl <;> rcases member with rfl | rfl <;> decide

/-- A line without brackets closes no bracket. -/
theorem Completes.of_neither
    {region : Region}
    {text line : Text}
    (whole : ∀ more, prospectFrom region (text ++ Byte.newline :: (line ++ more)) =
      prospectFrom (.words true) more)
    (neither : ∀ byte ∈ line, byte ≠ Byte.openBracket ∧ byte ≠ Byte.closeBracket) :
    Completes region text line := by
  refine ⟨whole, fun level isSome => isSome_bracketLevel_append ?_ isSome⟩
  intro byte member
  rcases List.mem_cons.mp member with rfl | member
  · decide
  · exact neither byte member

/-- At its end a region is completed by what closes it. -/
theorem completes_nil
    {region : Region}
    (proper : region.IsProper) :
    Completes region [] region.closing := by
  refine .of_neither (fun more => ?_) (Region.closing_neither proper)
  cases region with
  | words atWordStart =>
      exact (prospectFrom_newline atWordStart _).trans (prospectFrom_newline true more)
  | quoted quote start =>
      exact (prospectFrom_quoted_newline proper _).trans (prospectFrom_closing proper more)

/-- What completes the rest of a text completes the text when nothing else is open. -/
theorem Completes.of_suffix
    {region next : Region}
    {text rest line : Text}
    (suffix : rest <:+ text)
    (longer : ∀ more, prospectFrom region (text ++ Byte.newline :: more) =
      prospectFrom next (rest ++ Byte.newline :: more))
    (completes : Completes next rest line) :
    Completes region text line := by
  refine ⟨fun more => (longer _).trans (completes.whole more), fun level isSome => ?_⟩
  obtain ⟨before, rfl⟩ := suffix
  have passes : ∀ added, bracketLevel level (before ++ added) =
      (bracketLevel level before).bind (bracketLevel · added) :=
    fun added => levelAfter_append level before added
  obtain ⟨final, ends⟩ := Option.isSome_iff_exists.mp isSome
  obtain ⟨between, reached, -⟩ := Option.bind_eq_some_iff.mp ((passes rest).symm.trans ends)
  rw [passes, reached, Option.bind_some] at isSome
  rw [List.append_assoc, passes, reached, Option.bind_some]
  exact completes.level between isSome

/-- An open brace is closed at every level. -/
theorem completes_openBrace
    {region next : Region}
    {byte : UInt8}
    {lead rest : Text}
    (opens : ∀ other, front region (byte :: (lead ++ other)) = .ofBrace next other)
    (proper : next.IsProper)
    (missing : bracesEnd? rest = none) :
    ∃ line, Completes region (byte :: (lead ++ rest)) line := by
  obtain ⟨level, ends⟩ := levelAfter_of_missing missing
  have closed : levelAfter Byte.openBrace Byte.closeBrace 0
      (rest ++ Byte.newline :: List.replicate level Byte.closeBrace) = some 0 := by
    rw [levelAfter_append, ends, Option.bind_some, levelAfter_cons (by decide)]
    simpa using levelAfter_closers (by decide) 0 level
  refine ⟨List.replicate level Byte.closeBrace ++ Byte.closeBrace :: next.closing,
    .of_neither (fun more => ?_) fun byte member => ?_⟩
  · have found := balanced?_of_level_zero (by decide) closed (next.closing ++ more)
    simp only [List.append_assoc, List.cons_append] at found ⊢
    rw [prospectFrom_eq, opens, Front.ofBrace, bracesEnd?, found]
    exact prospectFrom_closing proper more
  · rcases List.mem_append.mp member with isBrace | isClosing
    · rw [List.eq_of_mem_replicate isBrace]
      decide
    · rcases List.mem_cons.mp isClosing with rfl | isClosing
      · decide
      · exact Region.closing_neither proper byte isClosing

/-- An open construct other than a bracket can be closed. -/
theorem completes_unfinished
    {region : Region}
    {text : Text}
    (proper : region.IsProper)
    (found : Fronted region text .unfinished) :
    ∃ line, Completes region text line := by
  cases found with
  | openQuote =>
      exact ⟨_, completes_nil proper⟩
  | @openComment rest opens missing =>
      refine ⟨blockEnd ++ [Byte.newline], .of_neither (fun more => ?_) (by decide +kernel)⟩
      cases rest with
      | nil =>
          cases opens
      | cons first rest =>
          let behind := rest ++ Byte.newline :: (blockEnd ++ Byte.newline :: more)
          have opensStill : opensBlock (Byte.hash :: first :: behind) = true :=
            (opensBlock_append_newline (Byte.hash :: first :: rest)
              (blockEnd ++ Byte.newline :: more)).trans opens
          have passes : front (.words true) (Byte.hash :: first :: behind) =
              .passed (.words true) (behind.drop (0 + rest.length + 1 + 2)) :=
            (Fronted.block opensStill (indexFrom_blockEnd missing (Byte.newline :: more))).front_eq
          have isLeft : behind.drop (0 + rest.length + 1 + 2) = Byte.newline :: more := by
            rw [Nat.zero_add, Nat.add_assoc, List.drop_length_add_append]
            rfl
          rw [isLeft] at passes
          exact (prospectFrom_of_passed passes).trans (prospectFrom_newline true more)
  | dangling =>
      refine ⟨[], .of_neither (fun more => ?_) (by simp)⟩
      have continues : front (.words true) (Byte.backslash :: Byte.newline :: more) =
          .passed (.words true) (more.dropWhile isLineBreak) :=
        (Fronted.continuation (by decide)).front_eq
      exact (prospectFrom_of_passed continues).trans (prospectFrom_dropWhile more)
  | openBrace opens keeps missing =>
      exact completes_openBrace opens (keeps proper) missing

/-- A stretch in braces is complete whatever it holds of brackets. -/
theorem prospectFrom_bracesOnly
    (count : Nat) :
    prospectFrom (.words true)
      (Byte.openBrace :: (List.replicate count Byte.closeBracket ++ [Byte.closeBrace])) =
        .complete := by
  have level : levelAfter Byte.openBrace Byte.closeBrace 0
      (List.replicate count Byte.closeBracket) = some 0 := by
    apply levelAfter_of_neither
    intro byte member
    rw [List.eq_of_mem_replicate member]
    decide
  have closed : bracesEnd? (List.replicate count Byte.closeBracket ++ [Byte.closeBrace]) =
      some (List.replicate count Byte.closeBracket, []) :=
    balanced?_of_level_zero (by decide) level []
  have passes : front (.words true)
      (Byte.openBrace :: (List.replicate count Byte.closeBracket ++ [Byte.closeBrace])) =
        Front.ofBrace (.words false) (List.replicate count Byte.closeBracket ++ [Byte.closeBrace]) :=
    rfl
  rw [Front.ofBrace, closed] at passes
  exact prospectFrom_of_passed passes

/--
An open bracket can be closed: a line completes what is behind it, a stretch in braces makes up for
the brackets that the line has left open, and one more bracket closes it.
-/
theorem completes_openBracket
    {region next : Region}
    {inside line : Text}
    (opens : ∀ other, front region (Byte.openBracket :: other) = .ofBracket next other)
    (proper : next.IsProper)
    (missing : bracketsEnd? inside = none)
    (completes : Completes (.words true) inside line) :
    ∃ line, Completes region (Byte.openBracket :: inside) line := by
  have isOpen : (bracketLevel 0 inside).isSome = true :=
    Option.isSome_iff_exists.mpr (levelAfter_of_missing missing)
  obtain ⟨level, ends⟩ := Option.isSome_iff_exists.mp (completes.level 0 isOpen)
  let padding := Byte.openBrace :: (List.replicate level Byte.closeBracket ++ [Byte.closeBrace])
  have padded : ∀ outer, bracketLevel outer (inside ++ Byte.newline :: line ++ padding) =
      some outer := by
    intro outer
    have added := levelAfter_add ends outer
    rw [Nat.zero_add] at added
    rw [bracketLevel, levelAfter_append, added, Option.bind_some,
      levelAfter_cons (by decide), levelAfter_append, Nat.add_comm level,
      levelAfter_closers (by decide), Option.bind_some, levelAfter_cons (by decide)]
    rfl
  refine ⟨line ++ (padding ++ Byte.closeBracket :: next.closing), fun more => ?_, fun outer _ => ?_⟩
  · have closed := balanced?_of_level_zero (by decide) (padded 0) (next.closing ++ more)
    have whole : prospectFrom (.words true) (inside ++ Byte.newline :: line ++ padding) =
        .complete := by
      rw [List.append_assoc, List.cons_append, completes.whole]
      exact prospectFrom_bracesOnly level
    have regrouped : Byte.openBracket :: inside ++ Byte.newline ::
        (line ++ (padding ++ Byte.closeBracket :: next.closing) ++ more) =
          Byte.openBracket :: (inside ++ Byte.newline :: line ++ padding ++
            Byte.closeBracket :: (next.closing ++ more)) := by
      simp
    rw [regrouped, prospectFrom_eq, opens, Front.ofBracket, bracketsEnd?, closed]
    simp only [Front.prospect, whole, if_true]
    exact prospectFrom_closing proper more
  · have regrouped : Byte.openBracket :: inside ++ Byte.newline ::
        (line ++ (padding ++ Byte.closeBracket :: next.closing)) =
          Byte.openBracket :: (inside ++ Byte.newline :: line ++ padding ++
            Byte.closeBracket :: next.closing) := by
      simp
    have within := padded (outer + 1)
    rw [bracketLevel] at within ⊢
    have ends : levelAfter Byte.openBracket Byte.closeBracket outer
        (Byte.openBracket :: (inside ++ Byte.newline :: line ++ padding ++
          Byte.closeBracket :: next.closing)) = some outer := by
      rw [levelAfter_opener, levelAfter_append, within]
      exact levelAfter_of_neither (Region.closing_neither proper) outer
    rw [regrouped, ends]
    rfl

/-- What is not hopeless can be completed. -/
theorem completes_of_hopeful
    {region : Region}
    {text : Text}
    (proper : region.IsProper)
    (hopeful : prospectFrom region text ≠ .hopeless) :
    ∃ line, Completes region text line := by
  induction size : text.length using Nat.strongRecOn generalizing region text with
  | _ size inductionHypothesis =>
      subst size
      have found := fronted region text
      rw [prospectFrom_eq] at hopeful
      generalize front region text = met at found hopeful
      cases met with
      | ended =>
          cases found with
          | ended => exact ⟨_, completes_nil proper⟩
      | unfinished =>
          exact completes_unfinished proper found
      | stray =>
          exact absurd rfl hopeful
      | openBracket inside =>
          cases found with
          | openBracket opens keeps missing =>
              have hopefulInside : prospectFrom (.words true) inside ≠ .hopeless :=
                fun hopeless => hopeful ((prospect_openBracket_iff _ _).mpr hopeless)
              obtain ⟨line, completes⟩ := inductionHypothesis _ (Nat.lt_succ_self _)
                (Region.isProper_words true) hopefulInside rfl
              exact completes_openBracket opens (keeps proper) missing completes
      | brackets inside next rest =>
          cases found with
          | @brackets _ _ behind _ _ opens keeps closed =>
              have suffix := (balanced?_sized closed).1
              by_cases whole : prospectFrom (.words true) inside = .complete
              · simp only [Front.prospect, whole, if_true] at hopeful
                obtain ⟨line, completes⟩ := inductionHypothesis _
                  (Nat.lt_succ_of_le suffix.length_le) (keeps proper) hopeful rfl
                refine ⟨line, .of_suffix (suffix.trans (List.suffix_cons _ _)) (fun more => ?_)
                  completes⟩
                rw [prospectFrom_eq, List.cons_append, opens, Front.ofBracket, bracketsEnd?,
                  balanced?_append closed]
                simp only [Front.prospect, whole, if_true]
              · simp [Front.prospect, whole] at hopeful
      | passed next rest =>
          obtain ⟨suffix, shorter⟩ := found.passed_shorter
          obtain ⟨line, completes⟩ := inductionHypothesis _ shorter (found.passed_proper proper)
            hopeful rfl
          exact ⟨line, .of_suffix suffix
            (fun more => found.prospectFrom_append proper (.inr rfl)) completes⟩

/-- A script with hope is completed by one more line. -/
theorem exists_line_of_hopeful
    {code : Text}
    (hopeful : prospect code ≠ .hopeless) :
    ∃ line, check (code ++ Byte.newline :: line) = none := by
  obtain ⟨line, completes⟩ := completes_of_hopeful (Region.isProper_words true) hopeful
  refine ⟨line, (check_eq_none_iff _).mpr ?_⟩
  have whole := completes.whole []
  rw [List.append_nil] at whole
  exact whole

/-- Nothing completes a script without hope. -/
theorem hopeful_of_completed
    {code more : Text}
    (accepted : check (code ++ more) = none) :
    prospect code ≠ .hopeless := by
  intro hopeless
  have complete := (check_eq_none_iff _).mp accepted
  rw [prospect, hopeless_append (Region.isProper_words true) hopeless more] at complete
  cases complete

/--
Some further text completes an incomplete script exactly when its prospect is unfinished, and so
does further input at the prompt that asks for it.
-/
theorem incomplete_completable_iff
    {code : Text}
    (incomplete : isIncomplete code = true) :
    ((∃ more, check (code ++ more) = none) ↔ prospect code = .unfinished) ∧
      ((∃ line, check (Repl.collect code line) = none) ↔ prospect code = .unfinished) := by
  have flawed : prospect code ≠ .complete := by
    intro complete
    rw [isIncomplete, (check_eq_none_iff code).mpr complete] at incomplete
    cases incomplete
  have collected : ∀ line, Repl.collect code line = code ++ Byte.newline :: line := by
    intro line
    have notEmpty : code ≠ [] := by
      rintro rfl
      cases incomplete
    simp [Repl.collect, notEmpty]
  have unfinished : ∀ {more : Text}, check (code ++ more) = none → prospect code = .unfinished := by
    intro more accepted
    cases isProspect : prospect code with
    | complete => exact absurd isProspect flawed
    | unfinished => rfl
    | hopeless => exact absurd isProspect (hopeful_of_completed accepted)
  have completed : prospect code = .unfinished →
      ∃ line, check (code ++ Byte.newline :: line) = none :=
    fun isProspect => exists_line_of_hopeful (by rw [isProspect]; decide)
  simp only [collected]
  refine ⟨⟨fun ⟨_, accepted⟩ => unfinished accepted, fun isProspect => ?_⟩,
    fun ⟨_, accepted⟩ => unfinished accepted, completed⟩
  obtain ⟨line, accepted⟩ := completed isProspect
  exact ⟨_, accepted⟩

/-- A quote that is open behind an open bracket in another quote can be completed. -/
theorem incomplete_completable_iff_nested :
    isIncomplete (Text.ofString "set a \"b [quote \"") = true ∧
      ∃ line, check (Repl.collect (Text.ofString "set a \"b [quote \"") line) = none :=
  ⟨by decide +kernel, (incomplete_completable_iff (by decide +kernel)).2.mpr (by decide +kernel)⟩

/-- A brace that is open in closed brackets: the script stays incomplete whatever follows. -/
theorem closed_brackets_stay_incomplete :
    isIncomplete (Text.ofString "[\x7b]") = true ∧
      ∀ more, check (Text.ofString "[\x7b]" ++ more) ≠ none ∧
        isIncomplete (Text.ofString "[\x7b]" ++ more) = true := by
  have found : ∀ more, check (Text.ofString "[\x7b]" ++ more) = some ⟨.openBrace, 1⟩ :=
    fun more => rfl
  refine ⟨by decide +kernel, fun more => ⟨?_, ?_⟩⟩
  · rw [found]
    exact Option.some_ne_none _
  · rw [isIncomplete, found]
    rfl

end LittleScript.Source
