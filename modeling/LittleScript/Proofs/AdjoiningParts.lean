import LittleScript.Proofs.Progress
import LittleScript.Proofs.SubstitutedValues

namespace LittleScript

/-!
# Adjoining parts of words

A part that stops inside its text is read in the same way when more text follows it: the reader
looks ahead only within what it has not taken yet.  So parts that stand directly next to each other
have the values that they have on their own, and are one word.  The exception is a part that begins
as a comment or a line continuation does: blanks are skipped before every part, not only before
every word, and these bytes are then no part at all.
-/

namespace Source

/-- A comment goes on up to a separator. -/
theorem skipFrom_comment
    (acrossLines : Bool)
    (byte : UInt8)
    (rest : Text)
    (offset : Nat) :
    skipFrom acrossLines .comment (byte :: rest) offset =
      if Byte.isSeparator byte then
        if acrossLines then skipFrom acrossLines .plain rest (offset + 1)
        else ⟨⟨byte :: rest, offset⟩, none⟩
      else skipFrom acrossLines .comment rest (offset + 1) := by
  rw [skipFrom]

/-- Where a blank stretch reaches the end of the text, nothing is left. -/
theorem skipFrom_nil_rest
    (acrossLines : Bool)
    (state : BlankState)
    (offset : Nat) :
    (skipFrom acrossLines state [] offset).cursor.rest = [] := by
  cases state <;> simp [skipFrom]

/-- A blank stretch that ends before a whole byte ends there whatever stands behind the text. -/
theorem skipFrom_append
    (acrossLines : Bool)
    (more : Text)
    {rest : Text}
    (inside : rest ≠ [])
    (whole : rest ≠ [Byte.backslash])
    (state : BlankState)
    (text : Text)
    (offset : Nat)
    {stop : Nat}
    (ran : skipFrom acrossLines state text offset = ⟨⟨rest, stop⟩, none⟩) :
    skipFrom acrossLines state (text ++ more) offset = ⟨⟨rest ++ more, stop⟩, none⟩ := by
  have notAtEnd : ∀ state offset, skipFrom acrossLines state [] offset ≠ ⟨⟨rest, stop⟩, none⟩ := by
    intro state offset ran
    have left := skipFrom_nil_rest acrossLines state offset
    rw [ran] at left
    exact inside left
  induction size : text.length using Nat.strongRecOn generalizing state text offset with
  | _ size shorter =>
      subst size
      match text with
      | [] => exact absurd ran (notAtEnd _ _)
      | [byte] =>
          cases state with
          | comment =>
              rw [skipFrom_comment] at ran
              rw [List.singleton_append, skipFrom_comment]
              grind
          | block start =>
              rw [skipFrom_block_cons, opensBlock_singleton] at ran
              exact absurd ran (notAtEnd _ _)
          | plain | joined =>
              rw [skipFrom_cons _ _ _ _ _ (by simp), opensBlock_singleton] at ran
              rw [List.singleton_append, skipFrom_cons _ _ _ _ _ (by simp)]
              grind
      | byte :: next :: after =>
          have later := fun state offset ran =>
            shorter (next :: after).length (by simp) state (next :: after) offset ran rfl
          have behind := fun state offset ran =>
            shorter after.length (by simp only [List.length_cons]; omega) state after offset ran rfl
          have noMark : opensBlock (byte :: next :: after) = false →
              opensBlock (byte :: next :: (after ++ more)) = false :=
            fun opens => opensBlock_append_of_not opens (by simp) more
          have sameMark : (next :: after).tail ≠ [] →
              opensBlock (byte :: next :: (after ++ more)) = opensBlock (byte :: next :: after) :=
            fun isMore => opensBlock_append byte isMore more
          simp only [List.cons_append, List.tail_cons] at later sameMark ⊢
          cases state with
          | comment =>
              rw [skipFrom_comment] at ran ⊢
              grind
          | block start =>
              rw [skipFrom_block_cons] at ran ⊢
              grind
          | plain | joined =>
              rw [skipFrom_cons _ _ _ _ _ (by simp)] at ran ⊢
              grind

/-- A run of bare bytes that ends inside a text ends there in a longer text as well. -/
theorem spanBare_append
    {text : Text}
    (inside : text.dropWhile isBare ≠ [])
    (more : Text) :
    (text ++ more).takeWhile isBare = text.takeWhile isBare ∧
      (text ++ more).dropWhile isBare = text.dropWhile isBare ++ more := by
  induction text with
  | nil => exact absurd rfl inside
  | cons byte rest inductionHypothesis =>
      simp only [List.cons_append, List.takeWhile_cons, List.dropWhile_cons] at inside ⊢
      cases bare : isBare byte with
      | false => simp
      | true =>
          simp only [bare, if_true] at inside ⊢
          exact ⟨congrArg (byte :: ·) (inductionHypothesis inside).1,
            (inductionHypothesis inside).2⟩

end Source

open Source (Cursor)

variable {σ : Type}

namespace Eval

/-! ## Parts with more text behind them -/

/-- Where the short reading ends as asked, the long one does the same and leaves `more` as well. -/
def Extended (more : Text) (asked : Text → Machine σ → Prop)
    (short long : Eval σ (Text × Cursor)) (machine : Machine σ) : Prop :=
  ∀ (value rest : Text) (stop : Nat) (after : Machine σ),
    short machine = .ok (value, ⟨rest, stop⟩) after →
    asked rest after →
    long machine = .ok (value, ⟨rest ++ more, stop⟩) after

/-- A reading stops inside its text. -/
def StopsInside (rest : Text) (_after : Machine σ) : Prop :=
  rest ≠ []

/-- A reading stops inside its text, or no error is pending behind it. -/
def StopsSoundly (rest : Text) (after : Machine σ) : Prop :=
  rest ≠ [] ∨ after.interpreter.error = none

theorem skipBlanks_append
    {reader : Reader}
    {text rest : Text}
    {offset stop : Nat}
    {machine between : Machine σ}
    (ran : skipBlanks reader ⟨text, offset⟩ machine = .ok ⟨rest, stop⟩ between)
    (inside : rest ≠ [])
    (whole : rest ≠ [Byte.backslash])
    (more : Text) :
    skipBlanks reader ⟨text ++ more, offset⟩ machine = .ok ⟨rest ++ more, stop⟩ between := by
  cases skipped : Source.skipBlanks reader.acrossLines ⟨text, offset⟩ with
  | mk place openComment =>
      cases openComment with
      | none =>
          rw [skipBlanks_apply skipped] at ran
          cases ran
          exact skipBlanks_apply
            (Source.skipFrom_append reader.acrossLines more inside whole .plain text offset skipped)
      | some start =>
          simp only [skipBlanks, skipped] at ran
          obtain ⟨_, _, _, yields⟩ := bind_eq_ok ran
          cases yields
          have nothing := Source.rest_of_openComment reader.acrossLines .plain text offset
            (congrArg Source.Blanks.openComment skipped)
          exact absurd ((congrArg (·.cursor.rest) skipped).symm.trans nothing) inside

theorem bracePart_append
    (reader : Reader)
    (text more : Text)
    (offset : Nat)
    (machine : Machine σ) :
    Extended more StopsInside (bracePart reader ⟨text, offset⟩)
      (bracePart reader ⟨text ++ more, offset⟩) machine := by
  intro value rest stop after ran inside
  rw [bracePart] at ran ⊢
  cases found : Source.bracesEnd? text with
  | none =>
      simp only [found] at ran
      obtain ⟨_, _, _, yields⟩ := bind_eq_ok ran
      cases yields
      exact absurd rfl inside
  | some split =>
      have longer : Source.bracesEnd? (text ++ more) = some (split.1, split.2 ++ more) :=
        Source.balanced?_append found more
      simp only [found] at ran
      cases ran
      simp only [longer]
      rfl

theorem bracketPart_append
    (reader : Reader)
    (run : Run σ)
    (text more : Text)
    (offset : Nat)
    (machine : Machine σ) :
    Extended more StopsInside (bracketPart reader run ⟨text, offset⟩)
      (bracketPart reader run ⟨text ++ more, offset⟩) machine := by
  intro value rest stop after ran inside
  rw [bracketPart] at ran ⊢
  cases found : Source.bracketsEnd? text with
  | none =>
      simp only [found] at ran
      obtain ⟨_, _, _, yields⟩ := bind_eq_ok ran
      cases yields
      exact absurd rfl inside
  | some split =>
      have longer : Source.bracketsEnd? (text ++ more) = some (split.1, split.2 ++ more) :=
        Source.balanced?_append found more
      simp only [found] at ran
      simp only [longer]
      obtain ⟨result, between, ranInside, yields⟩ := bind_eq_ok ran
      cases yields
      rw [bind_of_ok ranInside]
      rfl

theorem dollarPart_append
    {run : Run σ}
    {more : Text}
    {short long : Eval σ (Text × Cursor)}
    {machine : Machine σ}
    (name : Extended more StopsInside short long machine) :
    Extended more StopsInside (dollarPart run short) (dollarPart run long) machine := by
  intro value rest stop after ran inside
  rw [dollarPart] at ran ⊢
  obtain ⟨⟨word, behind⟩, between, ranName, ranValue⟩ := bind_eq_ok ran
  simp only [inspect_bind_apply] at ranValue
  obtain ⟨result, final, ranCode, yields⟩ := bind_eq_ok ranValue
  cases yields
  rw [bind_of_ok (name _ _ _ _ ranName inside)]
  simp only [inspect_bind_apply]
  rw [bind_of_ok ranCode]
  rfl

theorem unlessFailed_append
    {more : Text}
    {first long : Eval σ (Text × Cursor)}
    {ended : Text → Text}
    {next longNext : Text → Cursor → Eval σ (Text × Cursor)}
    {machine : Machine σ}
    (extended : Extended more StopsInside first long machine)
    (goesOn : ∀ (value rest : Text) (stop : Nat) (between : Machine σ),
      first machine = .ok (value, ⟨rest, stop⟩) between →
      Extended more StopsSoundly (next value ⟨rest, stop⟩) (longNext value ⟨rest ++ more, stop⟩)
        between)
    (fails : ∀ (value : Text) (stop : Nat) (between after : Machine σ) (read : Text × Cursor),
      first machine = .ok (value, ⟨[], stop⟩) between →
      next value ⟨[], stop⟩ between = .ok read after →
      ¬ StopsSoundly read.2.rest after) :
    Extended more StopsSoundly (unlessFailed first ended next) (unlessFailed long ended longNext)
      machine := by
  intro value rest stop after ran soundly
  rw [unlessFailed] at ran ⊢
  obtain ⟨⟨part, behind, stopPart⟩, between, ranPart, ranRest⟩ := bind_eq_ok ran
  simp only [hasError_bind_apply] at ranRest
  cases pending : between.interpreter.error with
  | some error =>
      simp only [pending, Option.isSome_some, if_true] at ranRest
      cases ranRest
      have inside : rest ≠ [] := soundly.resolve_right (by simp [pending])
      rw [bind_of_ok (extended _ _ _ _ ranPart inside)]
      simp [pending]
  | none =>
      simp only [pending, Option.isSome_none, Bool.false_eq_true, if_false] at ranRest
      have inside : behind ≠ [] := by
        rintro rfl
        exact fails _ _ _ _ _ ranPart ranRest soundly
      rw [bind_of_ok (extended _ _ _ _ ranPart inside)]
      simp only [hasError_bind_apply, pending, Option.isSome_none, Bool.false_eq_true, if_false]
      exact goesOn _ _ _ _ ranPart _ _ _ _ ranRest soundly

/-- A quoted part that is closed, or that stops inside its text, is the same in a longer text. -/
theorem quotedPart_append
    (reader : Reader)
    (run : Run σ)
    (more : Text)
    {name longName : Cursor → Eval σ (Text × Cursor)}
    (leaves : ∀ cursor, Leaves cursor.rest (name cursor))
    {size : Nat}
    (names : ∀ (text : Text) (offset : Nat) (machine : Machine σ), text.length < size →
      Extended more StopsInside (name ⟨text, offset⟩) (longName ⟨text ++ more, offset⟩) machine)
    (quote : UInt8)
    (start : Nat)
    (bound : Nat) :
    ∀ (longBound : Nat) (text : Text) (offset : Nat) (done : Text) (machine : Machine σ),
      text.length ≤ size →
      text.length < bound →
      text.length < longBound →
      Extended more StopsSoundly
        (quotedPart reader run name quote start bound ⟨text, offset⟩ done)
        (quotedPart reader run longName quote start longBound ⟨text ++ more, offset⟩ done)
        machine := by
  induction bound with
  | zero =>
      intro longBound text offset done machine _ enough
      omega
  | succ bound inductionHypothesis =>
      intro longBound text offset done machine fits enough longEnough
      obtain ⟨longBound, rfl⟩ : ∃ fewer, longBound = fewer + 1 := ⟨longBound - 1, by omega⟩
      cases ranQuoted : quotedRun quote text offset done with
      | mk literal place =>
          obtain ⟨left, place⟩ := place
          cases left with
          | nil =>
              intro value rest stop after ran soundly
              obtain ⟨failed, raised, pending, -⟩ :=
                malformed_pending reader start .openQuote machine
              rw [quotedPart] at ran
              simp only [ranQuoted] at ran
              rw [bind_of_ok raised] at ran
              cases ran
              exact absurd soundly (by simpa [StopsSoundly] using pending)
          | cons byte inner =>
              obtain ⟨suffix, -, appended, -⟩ := Source.quotedRun_inside quote _ _ _ _ _ _
                (Nat.lt_succ_self _) ranQuoted (by simp)
              have shorter := suffix.length_le
              simp only [List.length_cons] at shorter
              have goesOn : ∀ {first long : Eval σ (Text × Cursor)}, Leaves inner first →
                  Extended more StopsInside first long machine →
                  Extended more StopsSoundly
                    (unlessFailed first (fun value => (value.reverse ++ literal).reverse)
                      fun value cursor => quotedPart reader run name quote start bound cursor
                        (value.reverse ++ literal))
                    (unlessFailed long (fun value => (value.reverse ++ literal).reverse)
                      fun value cursor => quotedPart reader run longName quote start longBound
                        cursor (value.reverse ++ literal)) machine := by
                intro first long inText extended
                refine unlessFailed_append extended ?_ ?_
                · intro value rest stop between ran
                  have shorterRest := (inText _ _ _ ran).length_le
                  simp only at shorterRest
                  exact inductionHypothesis longBound rest stop _ between (by omega) (by omega)
                    (by omega)
                · intro value stop between after read ran ranRest soundly
                  obtain ⟨bound, rfl⟩ : ∃ fewer, bound = fewer + 1 := ⟨bound - 1, by omega⟩
                  have nothing := Leaves.quotedPart reader run leaves quote start (bound + 1)
                    ⟨[], stop⟩ _ _ _ _ ranRest
                  have failed := (quotedPart_nil reader run name quote start bound stop _ ranRest).2
                  exact soundly.elim (fun inside => inside (List.suffix_nil.mp nothing)) failed
              rw [quotedPart_of_run reader run name quote start bound ranQuoted,
                quotedPart_of_run reader run longName quote start longBound (appended more)]
              split
              · exact goesOn (.dollarPart (leaves ⟨inner, place + 1⟩))
                  (dollarPart_append (names inner (place + 1) machine (by omega)))
              · split
                · exact goesOn (.bracketPart reader run ⟨inner, place + 1⟩)
                    (bracketPart_append reader run inner more (place + 1) machine)
                · intro value rest stop after ran _
                  cases ran
                  rfl

/-- Quoted text that is closed, or in which the reading stops, is the same in a longer text. -/
theorem quoted_append
    (reader : Reader)
    (run : Run σ)
    {more : Text}
    {bound longBound : Nat}
    {quote : UInt8}
    (isQuote : quote = Byte.doubleQuote ∨ quote = Byte.singleQuote)
    {rest : Text}
    (offset : Nat)
    (machine : Machine σ)
    (enough : rest.length ≤ bound)
    (longEnough : rest.length ≤ longBound)
    (names : ∀ (text : Text) (offset : Nat) (machine : Machine σ), text.length < rest.length →
      Extended more StopsInside (part reader run bound ⟨text, offset⟩)
        (part reader run longBound ⟨text ++ more, offset⟩) machine) :
    Extended more StopsSoundly (partAt reader run bound quote rest offset)
      (partAt reader run longBound quote (rest ++ more) offset) machine := by
  have marks : (quote == Byte.dollar) = false ∧ (quote == Byte.openBrace) = false ∧
      (quote == Byte.openBracket) = false ∧
      (quote == Byte.doubleQuote || quote == Byte.singleQuote) = true := by
    rcases isQuote with rfl | rfl <;> decide
  rw [partAt, partAt]
  simp only [marks, Bool.false_eq_true, if_false, if_true]
  exact quotedPart_append reader run more (.part reader run bound) names quote offset (bound + 1)
    (longBound + 1) rest (offset + 1) [] machine (Nat.le_refl _) (by omega) (by omega)

theorem partAt_append
    (reader : Reader)
    (run : Run σ)
    {more : Text}
    {bound longBound : Nat}
    (byte : UInt8)
    {rest : Text}
    (offset : Nat)
    (machine : Machine σ)
    (enough : rest.length ≤ bound)
    (longEnough : rest.length ≤ longBound)
    (names : ∀ (text : Text) (offset : Nat) (machine : Machine σ), text.length ≤ rest.length →
      Extended more StopsInside (part reader run bound ⟨text, offset⟩)
        (part reader run longBound ⟨text ++ more, offset⟩) machine) :
    Extended more StopsInside (partAt reader run bound byte rest offset)
      (partAt reader run longBound byte (rest ++ more) offset) machine := by
  by_cases isQuote : byte = Byte.doubleQuote ∨ byte = Byte.singleQuote
  · intro value left stop after ran inside
    exact quoted_append reader run isQuote offset machine enough longEnough
      (fun text offset machine shorter => names text offset machine (Nat.le_of_lt shorter))
      value left stop after ran (.inl inside)
  · rw [partAt, partAt]
    split
    · exact dollarPart_append (names rest (offset + 1) machine (Nat.le_refl _))
    · split
      · exact bracePart_append reader rest more (offset + 1) machine
      · split
        · exact bracketPart_append reader run rest more (offset + 1) machine
        · rw [not_or] at isQuote
          simp only [isQuote, beq_iff_eq, Bool.or_eq_true, or_self, if_false]
          intro value left stop after ran inside
          cases ran
          obtain ⟨taken, dropped⟩ := Source.spanBare_append inside more
          rw [← List.cons_append, taken, dropped]
          rfl

/-- A part that stops inside its text is the same in a longer text. -/
theorem part_append
    (reader : Reader)
    (run : Run σ)
    (more : Text)
    (bound : Nat) :
    ∀ (longBound : Nat) (text : Text) (offset : Nat) (machine : Machine σ),
      text.length ≤ bound →
      text.length ≤ longBound →
      Extended more StopsInside (part reader run bound ⟨text, offset⟩)
        (part reader run longBound ⟨text ++ more, offset⟩) machine := by
  induction bound with
  | zero =>
      intro longBound text offset machine enough _ value rest stop after ran inside
      cases ran
      exact absurd (List.length_eq_zero_iff.mp (Nat.le_zero.mp enough)) inside
  | succ bound inductionHypothesis =>
      intro longBound text offset machine enough longEnough value rest stop after ran inside
      rw [part_succ] at ran
      obtain ⟨⟨left, place⟩, between, skipped, ranPart⟩ := bind_eq_ok ran
      have shorter := (skipBlanks_moves skipped).length_le
      cases left with
      | nil =>
          cases ranPart
          exact absurd rfl inside
      | cons byte tail =>
          simp only [List.length_cons] at shorter
          obtain ⟨longBound, rfl⟩ : ∃ fewer, longBound = fewer + 1 := ⟨longBound - 1, by omega⟩
          have whole : byte :: tail ≠ [Byte.backslash] := by
            rintro ⟨⟩
            cases ranPart
            exact inside rfl
          have longSkipped := skipBlanks_append skipped (by simp) whole more
          rw [part_succ, bind_of_ok longSkipped]
          exact partAt_append reader run byte place between (by omega) (by omega)
            (fun text offset machine small => inductionHypothesis longBound text offset machine
              (by omega) (by omega)) value rest stop after ranPart inside

end Eval

/-! ## Adjoining parts -/

/-- A part that can stand anywhere in a word. -/
inductive AdjoiningPart where
  | bare (bytes : Text) (run : bytes ≠ [] ∧ ∀ byte ∈ bytes, isBare byte = true)
  | braces (inside : Text) (balanced : Source.Balanced Byte.openBrace Byte.closeBrace inside)
  | quoted (quote : UInt8) (isQuote : quote = Byte.doubleQuote ∨ quote = Byte.singleQuote)
      (inside : Text)
  | command (code : Text) (balanced : Source.Balanced Byte.openBracket Byte.closeBracket code)

namespace AdjoiningPart

def text : AdjoiningPart → Text
  | .bare bytes _ => bytes
  | .braces inside _ => inBraces inside
  | .quoted quote _ inside => quote :: (inside ++ [quote])
  | .command code _ => inBrackets code

def isRun : AdjoiningPart → Bool
  | .bare .. => true
  | _ => false

/--
The value of a part on its own.  Quoted text has the value with which it is read when nothing
follows it; that the reading ends there without an error says that it is closed by its last byte.
-/
def Yields (reader : Reader) (run : Run σ) (part : AdjoiningPart) (machine : Machine σ)
    (value : Text) (after : Machine σ) : Prop :=
  match part with
  | .bare bytes _ => value = bytes ∧ after = machine
  | .braces inside _ => value = inside ∧ after = machine
  | .quoted .. =>
      Eval.ReadsPart reader run part.text [] machine value after ∧ after.interpreter.error = none
  | .command code _ =>
      run code false machine = .ok value after ∧ after.interpreter.error = none

theorem Yields.noError
    {reader : Reader}
    {run : Run σ}
    {part : AdjoiningPart}
    {machine after : Machine σ}
    {value : Text}
    (yields : part.Yields reader run machine value after)
    (noError : machine.interpreter.error = none) :
    after.interpreter.error = none := by
  cases part with
  | bare | braces =>
      obtain ⟨-, rfl⟩ := yields
      exact noError
  | quoted | command => exact yields.2

end AdjoiningPart

/-- The text of parts that stand directly next to each other. -/
def adjoined (parts : List AdjoiningPart) : Text :=
  (parts.map AdjoiningPart.text).flatten

/-- Whether a blank stretch opens with a text: a comment, or a backslash that joins lines. -/
def Source.opensStretch : Text → Bool
  | [] => false
  | byte :: rest => byte == Byte.hash || byte == Byte.backslash && rest.head?.any isLineBreak

/--
Parts that stand next to each other before `rest`, each where it is read as itself: no run of bare
bytes goes on behind its end, and no part begins as a comment or a line continuation does.
-/
structure Adjoin (parts : List AdjoiningPart) (rest : Text) : Prop where
  runsEnd : ∀ part behind, part :: behind <:+ parts → part.isRun = true →
    ∀ byte ∈ (adjoined behind ++ rest).head?, isBare byte = false
  opensNone : ∀ part behind, part :: behind <:+ parts →
    Source.opensStretch (adjoined (part :: behind) ++ rest) = false

namespace Adjoin

theorem nil
    (rest : Text) :
    Adjoin [] rest where
  runsEnd part behind suffix := absurd (List.suffix_nil.mp suffix) (by simp)
  opensNone part behind suffix := absurd (List.suffix_nil.mp suffix) (by simp)

theorem cons
    {part : AdjoiningPart}
    {parts : List AdjoiningPart}
    {rest : Text}
    (runEnds : part.isRun = true → ∀ byte ∈ (adjoined parts ++ rest).head?, isBare byte = false)
    (opensNone : Source.opensStretch (adjoined (part :: parts) ++ rest) = false)
    (adjoin : Adjoin parts rest) :
    Adjoin (part :: parts) rest where
  runsEnd other behind suffix := by
    rcases List.suffix_cons_iff.mp suffix with same | later
    · cases same
      exact runEnds
    · exact adjoin.runsEnd other behind later
  opensNone other behind suffix := by
    rcases List.suffix_cons_iff.mp suffix with same | later
    · cases same
      exact opensNone
    · exact adjoin.opensNone other behind later

end Adjoin

/-- A bare byte is neither a blank nor a separator. -/
theorem isBare_facts
    {byte : UInt8}
    (bare : isBare byte = true) :
    Byte.isSpace byte = false ∧ Byte.isSeparator byte = false := by
  revert byte
  apply Byte.of_codes
  decide +kernel

theorem AdjoiningPart.text_starts
    (part : AdjoiningPart) :
    ∃ first more, part.text = first :: more ∧
      Byte.isSpace first = false ∧ Byte.isSeparator first = false := by
  have marks : ∀ byte ∈ [Byte.openBrace, Byte.openBracket, Byte.doubleQuote, Byte.singleQuote],
      Byte.isSpace byte = false ∧ Byte.isSeparator byte = false := by decide +kernel
  cases part with
  | bare bytes bare =>
      obtain ⟨notEmpty, bare⟩ := bare
      cases bytes with
      | nil => exact absurd rfl notEmpty
      | cons first more => exact ⟨first, more, rfl, isBare_facts (bare first (by simp))⟩
  | braces => exact ⟨_, _, rfl, marks _ (by simp)⟩
  | quoted quote isQuote => exact ⟨_, _, rfl, marks _ (by simpa using .inr (.inr isQuote))⟩
  | command => exact ⟨_, _, rfl, marks _ (by simp)⟩

/-- No blanks stand before a bare byte with which no stretch opens. -/
theorem Source.skipFrom_of_bare
    (acrossLines : Bool)
    {byte : UInt8}
    {rest : Text}
    (bare : isBare byte = true)
    (opensNone : opensStretch (byte :: rest) = false)
    (offset : Nat) :
    skipFrom acrossLines .plain (byte :: rest) offset = ⟨⟨byte :: rest, offset⟩, none⟩ := by
  obtain ⟨notSpace, notSeparator⟩ := isBare_facts bare
  rw [opensStretch, Bool.or_eq_false_iff] at opensNone
  rw [skipFrom_cons _ _ _ _ _ (.inl rfl)]
  simp [opensNone, notSpace, notSeparator]

namespace Eval

/-- A part that adjoins others is read as what it yields on its own. -/
theorem AdjoiningPart.readsPart
    (reader : Reader)
    {run : Run σ}
    {part : AdjoiningPart}
    {machine after : Machine σ}
    {value : Text}
    (yields : part.Yields reader run machine value after)
    (rest : Text)
    (runEnds : part.isRun = true → ∀ byte ∈ rest.head?, isBare byte = false)
    (opensNone : Source.opensStretch (part.text ++ rest) = false) :
    ReadsPart reader run part.text rest machine value after := by
  cases part with
  | bare bytes bare =>
      obtain ⟨notEmpty, bare⟩ := bare
      cases bytes with
      | nil => exact absurd rfl notEmpty
      | cons first more =>
          obtain ⟨rfl, rfl⟩ := yields
          exact readsPart_bare reader run bare (runEnds rfl)
            (Source.skipFrom_of_bare _ (bare first (by simp)) opensNone) _
  | braces inside balanced =>
      obtain ⟨rfl, rfl⟩ := yields
      exact readsPart_inBraces reader run balanced rest _
  | quoted quote isQuote inside =>
      obtain ⟨alone, noError⟩ := yields
      intro bound offset enough
      have read := alone bound offset enough
      have startsWord : Source.startsWord quote = true := by
        rcases isQuote with rfl | rfl <;> decide
      simp only [AdjoiningPart.text, List.length_cons, List.append_nil] at enough read ⊢
      obtain ⟨bound, rfl⟩ : ∃ fewer, bound = fewer + 1 := ⟨bound - 1, by omega⟩
      rw [List.cons_append, part_of_startsWord reader run bound startsWord]
      rw [part_of_startsWord reader run bound startsWord] at read
      exact quoted_append reader run isQuote offset machine (Nat.le_of_succ_le_succ enough)
        (Nat.le_of_succ_le_succ enough)
        (fun text offset machine shorter => part_append reader run rest bound bound text offset
          machine (by omega) (by omega))
        value [] _ after read (.inr noError)
  | command code balanced => exact readsPart_inBrackets reader balanced yields.1 rest

/-- Adjoining parts are read as what they yield on their own. -/
theorem readsParts_of_adjoin
    {reader : Reader}
    {run : Run σ}
    {parts : List AdjoiningPart}
    {rest : Text}
    {machine after : Machine σ}
    {values : List Text}
    (yields : InTurn (AdjoiningPart.Yields reader run) parts machine values after)
    (present : parts ≠ [])
    (noError : machine.interpreter.error = none)
    (adjoin : Adjoin parts rest) :
    ReadsParts reader run rest (parts.map AdjoiningPart.text) machine values after := by
  refine readsParts_of_inTurn yields present noError (fun part _ => part.text_starts)
    (fun yields => yields.noError) fun part behind suffix _ _ _ yields => ?_
  have opensNone := adjoin.opensNone part behind suffix
  rw [adjoined, List.map_cons, List.flatten_cons, List.append_assoc] at opensNone
  exact AdjoiningPart.readsPart reader yields _ (adjoin.runsEnd part behind suffix) opensNone

/-! ## Blanks inside words -/

/-- Parts with further ones behind them. -/
theorem ReadsParts.append
    {reader : Reader}
    {run : Run σ}
    {rest : Text}
    {texts others values otherValues : List Text}
    {machine between after : Machine σ}
    (reads : ReadsParts reader run (others.flatten ++ rest) texts machine values between)
    (noError : between.interpreter.error = none)
    (goesOn : ∀ offset, endsWord ⟨others.flatten ++ rest, offset⟩ = false)
    (later : ReadsParts reader run rest others between otherValues after) :
    ReadsParts reader run rest (texts ++ others) machine (values ++ otherValues) after := by
  induction reads with
  | last notEmpty read => exact .more notEmpty read noError goesOn later
  | more notEmpty read noErrorHere goesOnHere _ inductionHypothesis =>
      refine .more notEmpty ?_ noErrorHere ?_ (inductionHypothesis noError later)
      · simpa using read
      · simpa using goesOnHere

section Lines

variable {reader : Reader} (lines : reader.acrossLines = false)

include lines

/-- A blank stretch in front of a part is skipped. -/
theorem ReadsPart.behindBlanks
    {run : Run σ}
    {blanks text rest value : Text}
    {machine after : Machine σ}
    (skips : Source.Skips .plain (blanks ++ (text ++ rest)) (text ++ rest))
    (notEmpty : text ≠ [])
    (read : ReadsPart reader run text rest machine value after) :
    ReadsPart reader run (blanks ++ text) rest machine value after := by
  intro bound offset enough
  have present := List.length_pos_iff.mpr notEmpty
  simp only [List.length_append, List.append_assoc] at enough ⊢
  obtain ⟨bound, rfl⟩ : ∃ fewer, bound = fewer + 1 := ⟨bound - 1, by omega⟩
  have readText := read (bound + 1) (offset + blanks.length) (by omega)
  rw [part_succ, bind_of_ok (skipBlanks_of_skips lines skips.settled _ machine)] at readText
  rw [part_succ, bind_of_ok (skipBlanks_of_skips lines skips offset machine)]
  simpa [Nat.add_assoc] using readText

/-- A blank stretch in front of parts is skipped. -/
theorem ReadsParts.behindBlanks
    {run : Run σ}
    {blanks text rest : Text}
    {texts values : List Text}
    {machine after : Machine σ}
    (skips : Source.Skips .plain (blanks ++ ((text :: texts).flatten ++ rest))
      ((text :: texts).flatten ++ rest))
    (reads : ReadsParts reader run rest (text :: texts) machine values after) :
    ReadsParts reader run rest ((blanks ++ text) :: texts) machine values after := by
  rw [List.flatten_cons, List.append_assoc] at skips
  cases reads with
  | last notEmpty read =>
      exact .last (by simp [notEmpty]) (read.behindBlanks lines skips notEmpty)
  | more notEmpty read noError goesOn later =>
      exact .more (by simp [notEmpty]) (read.behindBlanks lines skips notEmpty) noError goesOn later

/-- A blank stretch up to the end of the command is a part without bytes. -/
theorem readsPart_blanks
    (run : Run σ)
    {blanks rest : Text}
    (skips : Source.Skips .plain (blanks ++ rest) rest)
    (atBreak : Source.atBreak rest = true)
    (notEmpty : blanks ≠ [])
    (machine : Machine σ) :
    ReadsPart reader run blanks rest machine [] machine := by
  intro bound offset enough
  have present := List.length_pos_iff.mpr notEmpty
  obtain ⟨bound, rfl⟩ : ∃ fewer, bound = fewer + 1 := ⟨bound - 1, by omega⟩
  rw [part_of_atBreak lines run bound skips atBreak]
  simp

end Lines

/-- Where blanks end and a word can end, a command ends. -/
theorem atBreak_of_settled
    {rest : Text}
    (settled : Source.Skips .plain rest rest)
    (ends : endsWord ⟨rest, 0⟩ = true) :
    Source.atBreak rest = true := by
  cases rest with
  | nil => rfl
  | cons byte rest =>
      cases separator : Byte.isSeparator byte with
      | true => exact separator
      | false =>
          rw [endsWord_cons, separator, Bool.or_false] at ends
          obtain ⟨notHash, notBackslash⟩ := Source.isSpace_facts ends
          have skipped : Source.pastBlanks (byte :: rest) =
              (Source.skipFrom false .plain rest (0 + 1)).cursor.rest := by
            rw [Source.pastBlanks, Source.skipFrom_cons _ _ _ _ _ (.inl rfl)]
            simp [notHash, notBackslash, separator, ends]
          have shorter := (Source.skipFrom_suffix false .plain rest (0 + 1)).length_le
          rw [← skipped, settled.pastBlanks_eq] at shorter
          exact absurd shorter (Nat.not_succ_le_self _)

/-- A blank stretch that opens behind a part does not end the word. -/
theorem endsWord_of_opensStretch
    {blanks : Text}
    (opens : Source.opensStretch blanks = true)
    (rest : Text)
    (offset : Nat) :
    blanks ≠ [] ∧ endsWord ⟨blanks ++ rest, offset⟩ = false := by
  cases blanks with
  | nil => cases opens
  | cons byte more =>
      refine ⟨by simp, ?_⟩
      have mark : byte = Byte.hash ∨ byte = Byte.backslash := by
        simp only [Source.opensStretch, Bool.or_eq_true, beq_iff_eq, Bool.and_eq_true] at opens
        exact opens.imp_right And.left
      rw [List.cons_append, endsWord_cons]
      rcases mark with rfl | rfl <;> decide

/--
Parts that stand directly next to each other are one word, whose value is the values of the parts
in order, as long as none of them begins as a comment or a line continuation does.

The reader looks for blanks before every part, not only before every word.  So where a part does
begin like that, what would be bytes of the word is skipped as a blank stretch, up to the next part
or to the end of the command, and the word has the values of the parts around it.
-/
theorem adjoining_parts_are_one_word
    (reader : Reader)
    (run : Run σ)
    {parts : List AdjoiningPart}
    (present : parts ≠ [])
    {machine between : Machine σ}
    (noError : machine.interpreter.error = none)
    {values : List Text}
    (yields : InTurn (AdjoiningPart.Yields reader run) parts machine values between)
    {rest : Text}
    (ends : endsWord ⟨rest, 0⟩ = true)
    (depth bound offset : Nat) :
    (Adjoin parts rest →
      (adjoined parts).length ≤ depth →
      (adjoined parts).length ≤ bound →
      word reader run depth bound ⟨adjoined parts ++ rest, offset⟩ [] machine =
        .ok (some (values.flatten, ⟨rest, offset + (adjoined parts).length⟩)) between) ∧
      ∀ (blanks : Text) (others : List AdjoiningPart) (otherValues : List Text)
        (after : Machine σ),
        reader.acrossLines = false →
        Source.opensStretch blanks = true →
        Source.Skips .plain (blanks ++ (adjoined others ++ rest)) (adjoined others ++ rest) →
        Adjoin parts (blanks ++ (adjoined others ++ rest)) →
        Adjoin others rest →
        InTurn (AdjoiningPart.Yields reader run) others between otherValues after →
        (adjoined parts ++ blanks ++ adjoined others).length ≤ depth →
        (adjoined parts ++ blanks ++ adjoined others).length ≤ bound →
        word reader run depth bound
            ⟨adjoined parts ++ blanks ++ adjoined others ++ rest, offset⟩ [] machine =
          .ok (some (values.flatten ++ otherValues.flatten,
            ⟨rest, offset + (adjoined parts ++ blanks ++ adjoined others).length⟩)) after := by
  have noErrorBetween := yields.keeps (fun yields => yields.noError) noError
  constructor
  · intro adjoin deep enough
    have reads := readsParts_of_adjoin yields present noError adjoin
    exact reads.word (fun _ => ends) depth bound offset [] deep enough
  · intro blanks others otherValues after lines opens skips adjoin adjoinOthers yieldsOthers deep
      enough
    obtain ⟨notEmpty, goesOn⟩ := endsWord_of_opensStretch opens (adjoined others ++ rest) 0
    obtain ⟨texts, all, sameText, sameValue, later⟩ : ∃ texts all,
        texts.flatten = blanks ++ adjoined others ∧ all.flatten = otherValues.flatten ∧
          ReadsParts reader run rest texts between all after := by
      cases yieldsOthers with
      | nil =>
          have atBreak : Source.atBreak rest = true := atBreak_of_settled skips.settled ends
          exact ⟨[blanks], [[]], by simp [adjoined], rfl,
            .last notEmpty (readsPart_blanks lines run skips atBreak notEmpty between)⟩
      | @cons other others _ _ _ _ _ yieldsOther laterOthers =>
          have reads := readsParts_of_adjoin (.cons yieldsOther laterOthers) (by simp)
            noErrorBetween adjoinOthers
          exact ⟨_, _, by simp [adjoined], rfl, reads.behindBlanks lines skips⟩
    have before : ReadsParts reader run (texts.flatten ++ rest) (parts.map AdjoiningPart.text)
        machine values between := by
      rw [sameText, List.append_assoc]
      exact readsParts_of_adjoin yields present noError adjoin
    have reads := before.append noErrorBetween
      (by rw [sameText, List.append_assoc]; exact fun _ => goesOn) later
    have whole : (parts.map AdjoiningPart.text ++ texts).flatten =
        adjoined parts ++ blanks ++ adjoined others := by
      rw [List.flatten_append, sameText, List.append_assoc]
      rfl
    rw [← whole] at deep enough ⊢
    rw [reads.word (fun _ => ends) depth bound offset [] deep enough, List.flatten_append,
      sameValue]
    rfl

/-- The command in brackets `quote {x y}`. -/
def spacedQuotation : Text := Text.ofString "quote \x7bx y\x7d"

/-- The word `{a;}" # "[quote {x y}]b#c`. -/
def fourParts : List AdjoiningPart :=
  [.braces (Text.ofString "a;") (.of_unmarked (by decide +kernel)),
    .quoted Byte.doubleQuote (.inl rfl) (Text.ofString " # "),
    .command spacedQuotation (.of_unmarked (by decide +kernel)),
    .bare (Text.ofString "b#c") (by decide +kernel)]

/-- The part `{a}`. -/
def bracedLetter : AdjoiningPart :=
  .braces (Text.ofString "a") (.of_unmarked (by decide +kernel))

/-- Four parts are one word; a line continuation between two parts is dropped. -/
theorem adjoining_parts_are_one_word_four :
    (∃ after, word ⟨true, false⟩ (evaluate 2) 64 64 ⟨adjoined fourParts ++ [Byte.space], 0⟩ []
        shallow =
      .ok (some (Text.ofString "a; # x yb#c", ⟨[Byte.space], 25⟩)) after) ∧
      word ⟨true, false⟩ (evaluate 2) 64 64
          ⟨bracedLetter.text ++ [Byte.backslash, Byte.newline, 0x62], 0⟩ [] shallow =
        .ok (some ([0x61, 0x62], ⟨[], 6⟩)) shallow := by
  constructor
  · obtain ⟨after, ran, noError⟩ := unfailed?_eq_some
      (show unfailed? (evaluate 2 spacedQuotation false) shallow = some (Text.ofString "x y") by
        decide +kernel)
    let hash : AdjoiningPart := .quoted Byte.doubleQuote (.inl rfl) (Text.ofString " # ")
    have quoted : hash.Yields ⟨true, false⟩ (evaluate 2) shallow (Text.ofString " # ")
        shallow := by
      let pieces : List QuotedPiece :=
        [.plain Byte.space (by decide), .plain Byte.hash (by decide), .plain Byte.space (by decide)]
      have sameText : hash.text = (WrittenPart.quoted pieces).text := by decide +kernel
      have yields : WrittenPart.Yields (evaluate 2) (.quoted pieces) shallow
          (Text.ofString " # ") shallow :=
        ⟨[[Byte.space], [Byte.hash], [Byte.space]],
          .cons ⟨rfl, rfl⟩ (.cons ⟨rfl, rfl⟩ (.cons ⟨rfl, rfl⟩ .nil)), by decide +kernel⟩
      refine ⟨?_, by decide⟩
      rw [sameText]
      exact WrittenPart.readsPart _ yields []
    have yields : InTurn (AdjoiningPart.Yields ⟨true, false⟩ (evaluate 2)) fourParts shallow
        [Text.ofString "a;", Text.ofString " # ", Text.ofString "x y", Text.ofString "b#c"]
        after :=
      .cons ⟨rfl, rfl⟩ (.cons quoted (.cons ⟨ran, noError⟩ (.cons ⟨rfl, rfl⟩ .nil)))
    have adjoin : Adjoin fourParts [Byte.space] :=
      .cons (by decide) (by decide) <| .cons (by decide) (by decide) <|
        .cons (by decide) (by decide) <| .cons (by decide +kernel) (by decide) (.nil _)
    have read := (adjoining_parts_are_one_word ⟨true, false⟩ (evaluate 2) (by decide)
      (show shallow.interpreter.error = none by decide) yields
      (show endsWord ⟨[Byte.space], 0⟩ = true by decide) 64 64 0).1 adjoin (by decide) (by decide)
    exact ⟨after, read⟩
  · let letter : AdjoiningPart := .bare [0x62] (by decide +kernel)
    have first : InTurn (AdjoiningPart.Yields ⟨true, false⟩ (evaluate 2)) [bracedLetter] shallow
        [Text.ofString "a"] shallow := .cons ⟨rfl, rfl⟩ .nil
    have second : InTurn (AdjoiningPart.Yields ⟨true, false⟩ (evaluate 2)) [letter] shallow
        [[0x62]] shallow := .cons ⟨rfl, rfl⟩ .nil
    have skips : Source.Skips .plain [Byte.backslash, Byte.newline, 0x62] [0x62] :=
      .continues rfl rfl (.joins rfl (.stops rfl rfl))
    have read := (adjoining_parts_are_one_word ⟨true, false⟩ (evaluate 2) (by decide)
      (show shallow.interpreter.error = none by decide) first
      (show endsWord ⟨[], 0⟩ = true by decide) 64 64 0).2 [Byte.backslash, Byte.newline] [letter]
        [[0x62]] shallow rfl rfl skips (.cons (by decide) (by decide) (.nil _))
        (.cons (by decide +kernel) (by decide) (.nil _)) second (by decide) (by decide)
    exact read

/-- A hash behind a part opens a comment: the last part of the word is lost, and so is the line. -/
theorem hash_behind_braces_is_dropped :
    InTurn (AdjoiningPart.Yields ⟨true, false⟩ (evaluate 2))
        [bracedLetter, .bare (Text.ofString "#b") (by decide +kernel)] shallow
        [Text.ofString "a", Text.ofString "#b"] shallow ∧
      [Text.ofString "a", Text.ofString "#b"].flatten ≠ Text.ofString "a" ∧
      word ⟨true, false⟩ (evaluate 2) 64 64 ⟨Text.ofString "\x7ba\x7d#b c", 0⟩ [] shallow =
        .ok (some (Text.ofString "a", ⟨[], 7⟩)) shallow ∧
      unfailed? (evaluate 2 (Text.ofString "quote \x7ba\x7d#b c") true) shallow =
        some (Text.ofString "a") := by
  exact ⟨.cons ⟨rfl, rfl⟩ (.cons ⟨rfl, rfl⟩ .nil), by decide +kernel, rfl, by decide +kernel⟩

end Eval

end LittleScript
