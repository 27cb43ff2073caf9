import LittleScript.Proofs.NestedText
import LittleScript.Proofs.RobustExpressions

namespace LittleScript.Expression

/-!
# Where groups end

What is inside a group is read as if it stood alone: no operator, sign or literal goes over the
parenthesis that matches the opening one.  But reading may stop before it, at an operand that is no
number or behind a value, and the closing parenthesis is looked for right there.  So a group misses
its parenthesis when something is left in it, although the parenthesis is there; and in a text in
which each group is closed, that is the only way to miss one.
-/

open Guarded (read?_window sign_read?_cons unary_of_unsigned literal_cons eq_of_read? binary_congr
  unary_congr)

/-! ## Reading up to a closing parenthesis -/

/-- A reading of a text that another one follows. -/
def Reading.before (reading : Reading) (tail : Text) : Reading :=
  ⟨reading.outcome, reading.rest ++ tail⟩

/-- The reading counts as a number, if not by itself then at the end of its group. -/
def Reading.Settles (reading : Reading) : Prop :=
  reading.outcome = .error .notNumeric ∨ ∃ value, reading.outcome = .ok value

/-- What has a value at the end of its group counts as a number. -/
theorem Reading.settles_of_settle
    {reading : Reading}
    {value : Number}
    (isValue : (settle reading).outcome = .ok value) :
    reading.Settles := by
  rw [settle] at isValue
  split at isValue
  case h_1 notNumeric => exact .inl notNumeric
  case h_2 => exact .inr ⟨value, isValue⟩

/-- A fault that the end of a group leaves was there before. -/
theorem outcome_of_settle
    {reading : Reading}
    {fault : Fault}
    (faulty : (settle reading).outcome = .error fault) :
    reading.outcome = .error fault := by
  rw [settle] at faulty
  split at faulty
  · cases faulty
  · exact faulty

/-- The only fault that counts as a number is that of an operand that is none. -/
theorem Reading.Settles.eq_notNumeric
    {reading : Reading}
    {fault : Fault}
    (settles : reading.Settles)
    (faulty : reading.outcome = .error fault) :
    fault = .notNumeric := by
  obtain notNumeric | ⟨value, isValue⟩ := settles
  · exact Except.error.inj (faulty.symm.trans notNumeric)
  · rw [isValue] at faulty
    cases faulty

/-- How a text is read as the content of a group, before the group counts it. -/
def readInside (text : Text) : Reading :=
  binary (unary (text.length + 1)) (text.length + 1) levels text

/-- Reading stops at a number, or at an operand that is none, and more than blanks are left. -/
def StopsEarly (content : Text) : Prop :=
  (readInside content).Settles ∧ skipBlanks (readInside content).rest ≠ []

/-- What a group comes to, given what its content comes to and what follows the group. -/
def endGroup (content : Reading) (after : Text) : Reading :=
  match (settle content).outcome with
  | .error fault => ⟨.error fault, content.rest ++ Byte.closeParen :: after⟩
  | .ok value =>
      match skipBlanks content.rest with
      | [] => ⟨.ok value, after⟩
      | left => ⟨.error .missingParenthesis, left ++ Byte.closeParen :: after⟩

/-- Reading has ended in a group of the text that stops early. -/
def EndsEarly (text rest : Text) : Prop :=
  ∃ front content after,
    text = front ++ Byte.openParen :: (content ++ Byte.closeParen :: after) ∧
    Nested content ∧ StopsEarly content ∧
    rest = skipBlanks (readInside content).rest ++ Byte.closeParen :: after

/--
`EndsInGroup text rest fault`: reading has ended in a group of the text, and in no group inside that
one.  Either the group stops early, and its parenthesis is missing, or its content has the fault.
-/
def EndsInGroup (text rest : Text) (fault : Fault) : Prop :=
  ∃ front content after left,
    text = front ++ Byte.openParen :: (content ++ Byte.closeParen :: after) ∧
    Nested content ∧ Nested left ∧ rest = left ++ Byte.closeParen :: after ∧
    (fault = .missingParenthesis ∧ StopsEarly content ∧
        left = skipBlanks (readInside content).rest ∨
      fault ≠ .missingParenthesis ∧ ¬ (readInside content).Settles)

/-- A group in which reading ends may stand in a longer text. -/
theorem EndsInGroup.within
    {text rest : Text}
    {fault : Fault}
    (ends : EndsInGroup text rest fault)
    (front tail : Text) :
    EndsInGroup (front ++ (text ++ tail)) (rest ++ tail) fault := by
  obtain ⟨more, content, after, left, rfl, nested, nestedLeft, rfl, reason⟩ := ends
  exact ⟨front ++ more, content, after ++ tail, left, by simp, nested, nestedLeft, by simp, reason⟩

/-- `ReadsAlone size operand inner reading`: whatever closes behind a text, it is read alike. -/
structure ReadsAlone (size : Nat) (operand : Text → Reading) (inner : Text)
    (reading : Reading) : Prop where
  apart : ∀ tail, Closing tail → operand (inner ++ tail) = reading.before tail
  isSuffix : reading.rest <:+ inner
  nested : reading.Settles → Nested reading.rest
  faulty : inner.length < size → ∀ fault, reading.outcome = .error fault → fault ≠ .notNumeric →
    (fault ≠ .missingParenthesis ∧ Nested reading.rest) ∨ EndsInGroup inner reading.rest fault

/-- Texts with matching parentheses are read alike, whatever closes behind them. -/
def Confined (size : Nat) (operand : Text → Reading) : Prop :=
  ∀ inner, Nested inner → ∃ reading, ReadsAlone size operand inner reading

/-- Nothing that closes belongs to what is in front of it. -/
theorem skipBlanks_append
    (text : Text)
    {tail : Text}
    (closing : Closing tail) :
    skipBlanks (text ++ tail) = skipBlanks text ++ tail := by
  induction text with
  | nil =>
      obtain rfl | ⟨after, rfl⟩ := closing.cases
      · rfl
      · rfl
  | cons byte rest inductionHypothesis =>
      simp only [skipBlanks, List.cons_append, List.dropWhile_cons] at inductionHypothesis ⊢
      split
      · exact inductionHypothesis
      · rfl

/-- A literal ends before what closes behind it. -/
theorem literal_append
    (text : Text)
    {tail : Text}
    (closing : Closing tail)
    (sawPoint : Bool)
    (digits : Text) :
    literal (text ++ tail) sawPoint digits =
      ((literal text sawPoint digits).1, (literal text sawPoint digits).2.1,
        (literal text sawPoint digits).2.2 ++ tail) := by
  induction text generalizing sawPoint digits with
  | nil =>
      obtain rfl | ⟨after, rfl⟩ := closing.cases
      · rfl
      · exact literal_cons Byte.closeParen after sawPoint digits
  | cons byte rest inductionHypothesis =>
      rw [List.cons_append, literal_cons, literal_cons]
      split
      · exact inductionHypothesis _ _
      · split
        · exact inductionHypothesis _ _
        · rfl

/-- Two bytes decide on an operator. -/
theorem read?_append_of_two
    (level : Nat)
    (first second : UInt8)
    (rest more : Text) :
    Operator.read? level (first :: second :: (rest ++ more)) =
      (Operator.read? level (first :: second :: rest)).map fun found =>
        (found.1, found.2 ++ more) := by
  rw [read?_window level (first :: second :: (rest ++ more)),
    read?_window level (first :: second :: rest), Option.map_map]
  refine congrArg (Option.map · _) (funext fun found => ?_)
  have inside : 2 - found.2.length ≤ (first :: second :: rest).length :=
    (Nat.sub_le _ _).trans (Nat.le_add_left 2 rest.length)
  rw [Function.comp_apply, ← List.drop_append_of_le_length inside]
  rfl

/-- A closing parenthesis, like the end, lets a byte be an operator of its own. -/
theorem read?_closeParen
    (byte : UInt8) :
    ∀ level < levels, Operator.read? level [byte, Byte.closeParen] =
      (Operator.read? level [byte]).map fun found => (found.1, found.2 ++ [Byte.closeParen]) := by
  revert byte
  apply Byte.of_codes
  decide +kernel

/-- Which operator is read does not hang on what closes behind the text. -/
theorem read?_append
    (level : Nat)
    (text : Text)
    {tail : Text}
    (closing : Closing tail) :
    Operator.read? level (text ++ tail) =
      (Operator.read? level text).map fun found => (found.1, found.2 ++ tail) := by
  obtain rfl | ⟨after, rfl⟩ := closing.cases
  · simp
  · cases text with
    | nil =>
        have noOperator := stops_nil level level (Nat.le_refl _)
        have noOperatorThere := stops_closeParen level after level (Nat.le_refl _)
        exact noOperatorThere.trans (congrArg (Option.map _) noOperator.symm)
    | cons first rest =>
        cases rest with
        | cons second rest =>
            exact read?_append_of_two level first second rest (Byte.closeParen :: after)
        | nil =>
            refine (read?_append_of_two level first Byte.closeParen [] after).trans ?_
            by_cases isLevel : level < levels
            · rw [read?_closeParen first level isLevel, Option.map_map]
              simp [Function.comp_def]
            · obtain ⟨more, rfl⟩ := Nat.exists_eq_add_of_le' (Nat.le_of_not_lt isLevel)
              rfl

/-! ## One reader after the other -/

section ReadsAlone

variable {size : Nat} {operand next : Text → Reading} {inner behind : Text} {reading : Reading}

/-- The reader goes on with another one, which is given bounds of its own. -/
theorem ReadsAlone.further
    {larger : Nat}
    (alone : ReadsAlone size next behind reading)
    (isSuffix : behind <:+ inner)
    (shorter : inner.length < larger → behind.length < size)
    (goesOn : ∀ tail, Closing tail → operand (inner ++ tail) = next (behind ++ tail)) :
    ReadsAlone larger operand inner reading where
  apart tail closing := (goesOn tail closing).trans (alone.apart tail closing)
  isSuffix := alone.isSuffix.trans isSuffix
  nested := alone.nested
  faulty fits fault isFault numeric := by
    obtain ⟨front, rfl⟩ := isSuffix
    obtain own | ends := alone.faulty (shorter fits) fault isFault numeric
    · exact .inl own
    · have endsThere := ends.within front []
      rw [List.append_nil, List.append_nil] at endsThere
      exact .inr endsThere

/-- The reader goes on with another one behind the front of a text. -/
theorem ReadsAlone.goesOn
    (alone : ReadsAlone size next behind reading)
    (isSuffix : behind <:+ inner)
    (goesOn : ∀ tail, Closing tail → operand (inner ++ tail) = next (behind ++ tail)) :
    ReadsAlone size operand inner reading :=
  alone.further isSuffix isSuffix.length_le.trans_lt goesOn

/-- A reader that ends outside of groups misses no parenthesis. -/
theorem ReadsAlone.of_nested
    (apart : ∀ tail, Closing tail → operand (inner ++ tail) = reading.before tail)
    (isSuffix : reading.rest <:+ inner)
    (nested : Nested reading.rest)
    (present : reading.outcome ≠ .error .missingParenthesis) :
    ReadsAlone size operand inner reading where
  apart := apart
  isSuffix := isSuffix
  nested _ := nested
  faulty _ _ isFault _ := .inl ⟨fun missing => present (missing ▸ isFault), nested⟩

end ReadsAlone

/-! ## Literals -/

/-- A literal is split off in front of what has no part in a group. -/
theorem literal_parts
    (text : Text)
    (sawPoint : Bool)
    (digits : Text) :
    ∃ front, text = front ++ (literal text sawPoint digits).2.2 ∧ Byte.openParen ∉ front := by
  induction text generalizing sawPoint digits with
  | nil => exact ⟨[], rfl, List.not_mem_nil⟩
  | cons byte rest inductionHypothesis =>
      rw [literal_cons]
      split
      case isTrue isPoint =>
        obtain ⟨front, isRest, noOpening⟩ := inductionHypothesis true (byte :: digits)
        refine ⟨byte :: front, congrArg _ isRest, ?_⟩
        rintro (_ | ⟨_, isOpening⟩)
        · cases isPoint
        · exact noOpening isOpening
      case isFalse =>
        split
        case isTrue isDigit =>
          obtain ⟨front, isRest, noOpening⟩ := inductionHypothesis sawPoint (byte :: digits)
          refine ⟨byte :: front, congrArg _ isRest, ?_⟩
          rintro (_ | ⟨_, isOpening⟩)
          · cases isDigit
          · exact noOpening isOpening
        case isFalse => exact ⟨[], rfl, List.not_mem_nil⟩

/-- What is read as a literal depends on its digits and its point. -/
theorem element_eq
    (text : Text) :
    ∃ outcome rest, outcome ≠ .error .missingParenthesis ∧
      (rest = text ∨ rest = (literal text false []).2.2) ∧
      ∀ tail, Closing tail → element (text ++ tail) = ⟨outcome, rest ++ tail⟩ := by
  have apart := fun tail (closing : Closing tail) => literal_append text closing false []
  generalize literal text false [] = cut at apart
  obtain ⟨digits, point, rest⟩ := cut
  cases digits with
  | nil =>
      refine ⟨.error .notNumeric, text, by simp, .inl rfl, fun tail closing => ?_⟩
      rw [element, apart tail closing]
  | cons digit digits =>
      cases point with
      | true =>
          cases known : Binary64.read? (digit :: digits) with
          | none =>
              refine ⟨.error .notNumeric, rest, by simp, .inr rfl, fun tail closing => ?_⟩
              simp only [element, apart tail closing, known]
          | some value =>
              refine ⟨.ok (.float value), rest, by simp, .inr rfl, fun tail closing => ?_⟩
              simp only [element, apart tail closing, known]
      | false =>
          cases known : Integer.read? (digit :: digits) with
          | some value =>
              refine ⟨.ok (.int value), rest, by simp, .inr rfl, fun tail closing => ?_⟩
              simp only [element, apart tail closing, known]
          | none =>
              cases rounds : Binary64.readRounded? (digit :: digits) with
              | none =>
                  refine ⟨.ok (.float 0), rest, by simp, .inr rfl, fun tail closing => ?_⟩
                  simp only [element, apart tail closing, known, rounds]
              | some rounded =>
                  refine ⟨.ok (.float rounded.value), rest, by simp, .inr rfl,
                    fun tail closing => ?_⟩
                  simp only [element, apart tail closing, known, rounds]

/-- An operand does not reach beyond what closes behind it. -/
theorem element_confined
    (size : Nat) :
    Confined size element := by
  intro inner nested
  obtain ⟨outcome, rest, present, isRest, apart⟩ := element_eq inner
  obtain ⟨front, isInner, noOpening⟩ := literal_parts inner false []
  refine ⟨⟨outcome, rest⟩, .of_nested apart ?_ ?_ present⟩
  · rcases isRest with rfl | rfl
    · exact List.suffix_rfl
    · exact ⟨front, isInner.symm⟩
  · rcases isRest with rfl | rfl
    · exact nested
    · exact .behind noOpening (isInner ▸ nested)

/-! ## Operators -/

/-- No operator misses a parenthesis. -/
theorem Operator.apply_present
    (operator : Operator)
    (left right : Number) :
    operator.apply left right ≠ .error .missingParenthesis := by
  cases operator with
  | shiftLeft | shiftRight | divide | quotient | remainder =>
      rw [apply]
      split <;> simp
  | _ => simp [apply]

/-- Behind an operator a text is still nested. -/
theorem Nested.behindOperator
    {level : Nat}
    {text rest : Text}
    {operator : Operator}
    (nested : Nested text)
    (read : Operator.read? level text = some (operator, rest)) :
    Nested rest ∧ rest <:+ text := by
  have isText := eq_of_read? read
  subst isText
  refine ⟨nested.behind ?_, List.suffix_append _ _⟩
  cases operator <;> decide

/-- Behind blanks an end of the text is left. -/
theorem skipBlanks_isSuffix
    (text : Text) :
    skipBlanks text <:+ text :=
  List.dropWhile_suffix _

/-- Nor does a chain of operands. -/
theorem chain_confined
    {size : Nat}
    {operand : Text → Reading}
    (confined : Confined size operand)
    (level bound : Nat) :
    ∀ left, Confined size (chain level operand bound left) := by
  induction bound with
  | zero =>
      intro left inner nested
      exact ⟨⟨.ok left, inner⟩, .of_nested (fun _ _ => rfl) List.suffix_rfl nested (by simp)⟩
  | succ bound inductionHypothesis =>
      intro left inner nested
      have skips := skipBlanks_isSuffix inner
      cases read : Operator.read? level (skipBlanks inner) with
      | none =>
          refine ⟨⟨.ok left, skipBlanks inner⟩, .of_nested (fun tail closing => ?_) skips
            nested.skipBlanks (by simp)⟩
          simp only [chain, skipBlanks_append inner closing, read?_append level _ closing, read,
            Option.map_none, Reading.before]
      | some found =>
          obtain ⟨operator, behind⟩ := found
          obtain ⟨nestedBehind, isBehind⟩ := nested.skipBlanks.behindOperator read
          obtain ⟨⟨outcome, rest⟩, alone⟩ := confined behind nestedBehind
          have isSuffix := isBehind.trans skips
          cases outcome with
          | error fault =>
              refine ⟨⟨.error fault, rest⟩, alone.goesOn isSuffix fun tail closing => ?_⟩
              simp only [chain, skipBlanks_append inner closing, read?_append level _ closing, read,
                Option.map_some, alone.apart tail closing, Reading.before]
          | ok right =>
              have nestedRest := alone.nested (.inr ⟨_, rfl⟩)
              have isRest := alone.isSuffix.trans isSuffix
              cases applied : operator.apply left right with
              | error fault =>
                  refine ⟨⟨.error fault, rest⟩, .of_nested (fun tail closing => ?_) isRest
                    nestedRest (applied ▸ operator.apply_present left right)⟩
                  simp only [chain, skipBlanks_append inner closing, read?_append level _ closing,
                    read, Option.map_some, alone.apart tail closing, Reading.before, applied]
              | ok result =>
                  obtain ⟨reading, aloneThere⟩ := inductionHypothesis result rest nestedRest
                  refine ⟨reading, aloneThere.goesOn isRest fun tail closing => ?_⟩
                  simp only [chain, skipBlanks_append inner closing, read?_append level _ closing,
                    read, Option.map_some, alone.apart tail closing, Reading.before, applied]

/-- Nor do operators of any level. -/
theorem binary_confined
    {size : Nat}
    {operand : Text → Reading}
    (confined : Confined size operand)
    (bound tighter : Nat) :
    Confined size (binary operand bound tighter) := by
  induction tighter with
  | zero => exact confined
  | succ tighter inductionHypothesis =>
      intro inner nested
      obtain ⟨⟨outcome, rest⟩, alone⟩ := inductionHypothesis inner nested
      cases outcome with
      | error fault =>
          refine ⟨_, alone.goesOn List.suffix_rfl fun tail closing => ?_⟩
          simp only [binary, alone.apart tail closing, Reading.before]
      | ok left =>
          obtain ⟨reading, aloneThere⟩ := chain_confined inductionHypothesis
            (levels - (tighter + 1)) bound left rest (alone.nested (.inr ⟨_, rfl⟩))
          refine ⟨reading, aloneThere.goesOn alone.isSuffix fun tail closing => ?_⟩
          simp only [binary, alone.apart tail closing, Reading.before]

/-! ## Groups -/

/-- Counting a number leaves the rest where it is. -/
theorem settle_rest
    (reading : Reading) :
    (settle reading).rest = reading.rest := by
  rw [settle]
  split <;> rfl

/-- It does not hang on what follows. -/
theorem settle_before
    (reading : Reading)
    (tail : Text) :
    settle (reading.before tail) = (settle reading).before tail := by
  obtain ⟨outcome, rest⟩ := reading
  cases outcome with
  | ok value => rfl
  | error fault => cases fault <;> rfl

/-- A group is read up to its end if its content is, and otherwise it misses its end. -/
theorem closeGroup_before
    {reading : Reading}
    (nested : reading.Settles → Nested reading.rest)
    (after : Text) :
    closeGroup (settle (reading.before (Byte.closeParen :: after))) = endGroup reading after := by
  rw [settle_before, Reading.before, settle_rest, endGroup]
  cases settled : (settle reading).outcome with
  | error fault => rfl
  | ok value =>
      have skips := skipBlanks_append reading.rest (closing_closeParen after)
      have nestedLeft := (nested (Reading.settles_of_settle settled)).skipBlanks
      simp only [closeGroup, skips]
      generalize skipBlanks reading.rest = left at nestedLeft
      cases left with
      | nil => rfl
      | cons byte more =>
          rw [List.cons_append]
          split
          case h_1 isClosing =>
            rw [(List.cons.inj isClosing).1] at nestedLeft
            exact absurd nestedLeft Nested.not_closeParen
          case h_2 => rfl

/-- A group has the fault of its content, or comes to a number, or misses its end. -/
theorem endGroup_cases
    (reading : Reading)
    (after : Text) :
    (∃ fault, reading.outcome = .error fault ∧ fault ≠ .notNumeric ∧
      endGroup reading after = ⟨.error fault, reading.rest ++ Byte.closeParen :: after⟩) ∨
    (reading.Settles ∧ skipBlanks reading.rest = [] ∧
      ∃ value, endGroup reading after = ⟨.ok value, after⟩) ∨
    (reading.Settles ∧ skipBlanks reading.rest ≠ [] ∧
      endGroup reading after =
        ⟨.error .missingParenthesis, skipBlanks reading.rest ++ Byte.closeParen :: after⟩) := by
  rw [endGroup]
  cases settled : (settle reading).outcome with
  | error fault =>
      refine .inl ⟨fault, outcome_of_settle settled, fun notNumeric => ?_, rfl⟩
      exact Guarded.settle_ne_notNumeric reading (notNumeric ▸ settled)
  | ok value =>
      cases left : skipBlanks reading.rest with
      | nil => exact .inr (.inl ⟨Reading.settles_of_settle settled, rfl, value, rfl⟩)
      | cons byte more =>
          exact .inr (.inr ⟨Reading.settles_of_settle settled, by simp, rfl⟩)

/-- Fault and number of a group do not depend on what follows it. -/
theorem endGroup_before
    (reading : Reading)
    (after tail : Text) :
    endGroup reading (after ++ tail) = (endGroup reading after).before tail := by
  rw [endGroup, endGroup]
  cases (settle reading).outcome with
  | error fault => simp [Reading.before]
  | ok value =>
      cases skipBlanks reading.rest with
      | nil => rfl
      | cons byte more => simp [Reading.before]

/-- A parenthesis opens a group, which is read at the loosest level. -/
theorem unary_openParen
    (bound : Nat)
    (inside : Text) :
    unary (bound + 1) (Byte.openParen :: inside) =
      closeGroup (settle (binary (unary bound) (bound + 1) levels inside)) :=
  rfl

/-- Blanks before an operand are skipped. -/
theorem unary_skipBlanks
    (bound : Nat)
    (text : Text) :
    unary (bound + 1) (skipBlanks text) = unary (bound + 1) text := by
  rw [unary, unary, skipBlanks_idempotent]

section ContentAlone

variable {bound : Nat} {content : Text} {reading : Reading}

/-- A group is read as its content is alone, whatever follows it. -/
theorem unary_of_alone
    (alone : ReadsAlone bound (binary (unary bound) (bound + 1) levels) content reading)
    (after : Text) :
    unary (bound + 1) (Byte.openParen :: (content ++ Byte.closeParen :: after)) =
      endGroup reading after := by
  rw [unary_openParen, alone.apart _ (closing_closeParen after), closeGroup_before alone.nested]

/-- The bounds of a group fit its content. -/
theorem readInside_of_alone
    (alone : ReadsAlone bound (binary (unary bound) (bound + 1) levels) content reading)
    (fits : content.length < bound) :
    readInside content = reading := by
  have agree : ∀ shorter : Text, shorter.length ≤ content.length →
      unary bound shorter = unary (content.length + 1) shorter :=
    fun shorter isSmall => unary_congr bound _ shorter (by omega) (by omega)
  have sameBounds := binary_congr agree (Nat.lt_succ_of_lt fits) (Nat.lt_succ_self _) levels
    content (Nat.le_refl _)
  have atEnd := alone.apart [] closing_nil
  rw [List.append_nil, Reading.before, List.append_nil] at atEnd
  exact sameBounds.symm.trans atEnd

/-- A group is read alike, whatever closes behind it. -/
theorem group_alone
    {after : Text}
    (alone : ReadsAlone bound (binary (unary bound) (bound + 1) levels) content reading)
    (nestedContent : Nested content)
    (nestedAfter : Nested after) :
    ReadsAlone (bound + 1) (unary (bound + 1))
      (Byte.openParen :: (content ++ Byte.closeParen :: after)) (endGroup reading after) := by
  have apart : ∀ tail, Closing tail →
      unary (bound + 1) (Byte.openParen :: (content ++ Byte.closeParen :: after) ++ tail) =
        (endGroup reading after).before tail := fun tail _ => by
    rw [← endGroup_before, ← unary_of_alone alone]
    simp
  have suffixOf : ∀ {left : Text}, left <:+ content →
      left ++ Byte.closeParen :: after <:+
        Byte.openParen :: (content ++ Byte.closeParen :: after) := by
    rintro left ⟨front, rfl⟩
    exact ⟨Byte.openParen :: front, by simp⟩
  have isShorter : (Byte.openParen :: (content ++ Byte.closeParen :: after)).length < bound + 1 →
      content.length < bound := fun fits => by
    simp only [List.length_cons, List.length_append] at fits
    omega
  obtain ⟨fault, faulty, numeric, isEnd⟩ | ⟨-, -, value, isEnd⟩ | ⟨settles, isLeft, isEnd⟩ :=
    endGroup_cases reading after
  · rw [isEnd] at apart ⊢
    refine ⟨apart, suffixOf alone.isSuffix, fun settles => ?_, fun fits other isOther _ => .inr ?_⟩
    · exact absurd (settles.eq_notNumeric rfl) numeric
    · cases isOther
      obtain ⟨present, nestedRest⟩ | ends := alone.faulty (isShorter fits) fault faulty numeric
      · have unsettled : ¬ (readInside content).Settles := by
          rw [readInside_of_alone alone (isShorter fits)]
          exact fun settles => numeric (settles.eq_notNumeric faulty)
        exact ⟨[], content, after, _, rfl, nestedContent, nestedRest, rfl,
          .inr ⟨present, unsettled⟩⟩
      · exact ends.within [Byte.openParen] (Byte.closeParen :: after)
  · rw [isEnd] at apart ⊢
    have isSuffix : after <:+ Byte.openParen :: (content ++ Byte.closeParen :: after) :=
      ⟨Byte.openParen :: (content ++ [Byte.closeParen]), by simp⟩
    exact .of_nested apart isSuffix nestedAfter (by simp)
  · rw [isEnd] at apart ⊢
    refine ⟨apart, suffixOf ((skipBlanks_isSuffix _).trans alone.isSuffix), fun settles => ?_,
      fun fits fault isFault _ => .inr ?_⟩
    · cases settles.eq_notNumeric rfl
    · cases isFault
      have nestedLeft := (alone.nested settles).skipBlanks
      obtain rfl := readInside_of_alone alone (isShorter fits)
      exact ⟨[], content, after, _, rfl, nestedContent, nestedLeft, rfl,
        .inl ⟨rfl, ⟨settles, isLeft⟩, rfl⟩⟩

end ContentAlone

/-- A sign is read with its operand. -/
theorem sign_alone
    (sign : Sign)
    {bound : Nat}
    {byte : UInt8}
    {inner rest : Text}
    {reading : Reading}
    (alone : ReadsAlone bound (unary bound) rest reading)
    (isRest : byte :: rest <:+ inner)
    (signed : ∀ tail, Closing tail →
      unary (bound + 1) (inner ++ tail) =
        match unary bound (rest ++ tail) with
        | ⟨.ok operand, after⟩ => ⟨.ok (sign.apply operand), after⟩
        | faulty => faulty) :
    ∃ reading, ReadsAlone (bound + 1) (unary (bound + 1)) inner reading := by
  have isSuffix : rest <:+ inner := (List.suffix_cons byte rest).trans isRest
  obtain ⟨outcome, left⟩ := reading
  cases outcome with
  | ok operand =>
      refine ⟨⟨.ok (sign.apply operand), left⟩, .of_nested (fun tail closing => ?_)
        (alone.isSuffix.trans isSuffix) (alone.nested (.inr ⟨_, rfl⟩)) (by simp)⟩
      rw [signed tail closing, alone.apart tail closing]
      rfl
  | error fault =>
      have apart : ∀ tail, Closing tail →
          unary (bound + 1) (inner ++ tail) = unary bound (rest ++ tail) := fun tail closing => by
        rw [signed tail closing, alone.apart tail closing]
        rfl
      have shorter := isRest.length_le
      rw [List.length_cons] at shorter
      exact ⟨_, alone.further isSuffix (fun fits => by omega) apart⟩

/-- Operands with signs and groups do not reach beyond what closes behind them. -/
theorem unary_confined
    (bound : Nat) :
    Confined bound (unary bound) := by
  induction bound with
  | zero =>
      intro inner nested
      exact ⟨⟨.error .notNumeric, inner⟩, .of_nested (fun _ _ => rfl) List.suffix_rfl
        nested (by simp)⟩
  | succ bound inductionHypothesis =>
      intro inner nested
      have skips := skipBlanks_isSuffix inner
      have nestedThere := nested.skipBlanks
      have skipsThere := fun tail (closing : Closing tail) => skipBlanks_append inner closing
      cases skipped : skipBlanks inner with
      | nil =>
          simp only [skipped, List.nil_append] at skips skipsThere
          refine ⟨⟨.error .notNumeric, []⟩, .of_nested (fun tail closing => ?_) skips
            .nil (by simp)⟩
          have isBlank := skipsThere tail closing
          obtain rfl | ⟨after, rfl⟩ := closing.cases
          · rw [unary, isBlank]
            rfl
          · rw [unary_of_unsigned bound isBlank rfl]
            rfl
      | cons byte rest =>
          simp only [skipped, List.cons_append] at skips nestedThere skipsThere
          cases signed : Sign.read? [byte] with
          | some found =>
              have notOpening : Byte.openParen ∉ [byte] := fun isOpening => by
                rw [← List.mem_singleton.mp isOpening] at signed
                cases signed
              obtain ⟨reading, alone⟩ := inductionHypothesis rest
                (nestedThere.behind notOpening)
              refine sign_alone found.1 alone skips fun tail closing => ?_
              rw [unary, skipsThere tail closing, sign_read?_cons, signed]
              rfl
          | none =>
              have unsigned : ∀ tail, Sign.read? (byte :: (rest ++ tail)) = none := fun tail => by
                rw [sign_read?_cons, signed]
                rfl
              by_cases isOpening : byte = Byte.openParen
              case pos =>
                subst isOpening
                obtain ⟨content, after, rfl, nestedContent, nestedAfter⟩ := nestedThere.group_cases
                obtain ⟨reading, alone⟩ := binary_confined inductionHypothesis (bound + 1) levels
                  content nestedContent
                have whole := group_alone alone nestedContent nestedAfter
                refine ⟨_, whole.goesOn skips fun tail closing => ?_⟩
                rw [← unary_skipBlanks, skipsThere tail closing]
                rfl
              case neg =>
                obtain ⟨reading, alone⟩ := element_confined (bound + 1) _ nestedThere
                refine ⟨reading, alone.goesOn skips fun tail closing => ?_⟩
                rw [unary_of_unsigned bound (skipsThere tail closing) (unsigned tail),
                  if_neg (by simpa using isOpening)]
                rfl

/-! ## Missing parentheses -/

/-- Wherever a group is read, it comes to what its content alone makes of it. -/
theorem unary_group
    {content : Text}
    (nested : Nested content)
    {bound : Nat}
    (fits : content.length < bound)
    (after : Text) :
    unary (bound + 1) (Byte.openParen :: (content ++ Byte.closeParen :: after)) =
      endGroup (readInside content) after := by
  obtain ⟨reading, alone⟩ :=
    binary_confined (unary_confined bound) (bound + 1) levels content nested
  rw [unary_of_alone alone, readInside_of_alone alone fits]

/-- What is left of a content that has not failed is outside of its groups. -/
theorem Nested.readInside_rest
    {content : Text}
    (nested : Nested content)
    (settles : (readInside content).Settles) :
    Nested (readInside content).rest := by
  obtain ⟨reading, alone⟩ := binary_confined (unary_confined (content.length + 1))
    (content.length + 1 + 1) levels content nested
  obtain rfl := readInside_of_alone alone (Nat.lt_succ_self _)
  exact alone.nested settles

/--
Where reading ends outside of groups it does not end in one that stops early.  Otherwise the text
around the groups would have a parenthesis that is not closed.
-/
theorem not_endsEarly_outside
    {inner rest tail : Text}
    (nested : Nested inner)
    (nestedRest : Nested rest)
    (closing : Closing tail) :
    ¬ EndsEarly (inner ++ tail) (rest ++ tail) := by
  rintro ⟨front, content, after, isText, nestedContent, ⟨settles, -⟩, isRest⟩
  have nestedLeft := (nestedContent.readInside_rest settles).skipBlanks
  obtain rfl | ⟨behind, rfl⟩ := closing.cases
  · rw [List.append_nil] at isRest
    exact nestedLeft.not_closed_behind (isRest ▸ nestedRest)
  · obtain ⟨-, rfl⟩ := nestedRest.end_unique nestedLeft isRest
    have isInner : inner = front ++ Byte.openParen :: content :=
      (List.append_left_inj (Byte.closeParen :: behind)).mp (by simpa using isText)
    exact nestedContent.not_opened_before (isInner ▸ nested)

/-- The group in which reading ends decides on the fault. -/
theorem EndsInGroup.missing_iff
    {text rest : Text}
    {fault : Fault}
    (ends : EndsInGroup text rest fault) :
    fault = .missingParenthesis ↔ EndsEarly text rest := by
  obtain ⟨front, content, after, left, rfl, nested, nestedLeft, rfl, reason⟩ := ends
  constructor
  · intro missing
    obtain ⟨-, stops, rfl⟩ | ⟨present, -⟩ := reason
    · exact ⟨front, content, after, rfl, nested, stops, rfl⟩
    · exact absurd missing present
  · rintro ⟨before, other, behind, isText, nestedOther, stops, isRest⟩
    have nestedStop := (nestedOther.readInside_rest stops.1).skipBlanks
    obtain ⟨-, rfl⟩ := nestedLeft.end_unique nestedStop isRest
    have sameStart : front ++ Byte.openParen :: content = before ++ Byte.openParen :: other :=
      (List.append_left_inj (Byte.closeParen :: after)).mp (by simpa using isText)
    obtain rfl := nested.start_unique nestedOther sameStart
    obtain ⟨missing, -⟩ | ⟨-, unsettled⟩ := reason
    · exact missing
    · exact absurd stops.1 unsettled

/-- If each group is closed, a parenthesis is missed where reading ends in one that stops early. -/
theorem evaluate_missing_iff
    {text : Text}
    (closes : EachCloses text) :
    evaluate text = .error .missingParenthesis ↔ EndsEarly text (read text).rest := by
  by_cases isEmpty : text = []
  case pos =>
    subst isEmpty
    constructor
    · intro missing
      cases missing
    · rintro ⟨front, content, after, isText, -⟩
      simp at isText
  case neg =>
    have evaluates : evaluate text = (read text).outcome := by
      rw [evaluate, if_neg (by simpa using isEmpty)]
    obtain ⟨inner, tail, rfl, nested, closing⟩ :=
      closes.split (text.length + 1) text (Nat.lt_succ_self _)
    obtain ⟨reading, alone⟩ := binary_confined (unary_confined ((inner ++ tail).length + 1))
      ((inner ++ tail).length + 1) levels inner nested
    have isReading : read (inner ++ tail) = (settle reading).before tail := by
      rw [read, alone.apart tail closing, settle_before]
    have fits : inner.length < (inner ++ tail).length + 1 := by
      rw [List.length_append]
      omega
    rw [evaluates, isReading, Reading.before, settle_rest]
    simp only
    cases settled : (settle reading).outcome with
    | ok value =>
        have nestedRest := alone.nested (Reading.settles_of_settle settled)
        have elsewhere := not_endsEarly_outside nested nestedRest closing
        simp [elsewhere]
    | error fault =>
        have isFault := outcome_of_settle settled
        have numeric : fault ≠ .notNumeric := fun notNumeric =>
          Guarded.settle_ne_notNumeric reading (notNumeric ▸ settled)
        rw [Except.error.injEq]
        obtain ⟨present, nestedRest⟩ | ends := alone.faulty fits fault isFault numeric
        · exact ⟨fun missing => absurd missing present,
            fun ends => absurd ends (not_endsEarly_outside nested nestedRest closing)⟩
        · exact (ends.within [] tail).missing_iff

/--
What becomes of the group of a content wherever the reader comes to it.  It counts as the number of
its content, or as one for an operand that is none, if only blanks are left, and reading goes on
behind it; it misses its parenthesis if more is left; a fault is one of the group.
-/
structure GroupEnds (content : Text) : Prop where
  number : ∀ value, (readInside content).outcome = .ok value →
    skipBlanks (readInside content).rest = [] → ∀ bound after, content.length < bound →
    unary (bound + 1) (Byte.openParen :: (content ++ Byte.closeParen :: after)) =
      ⟨.ok value, after⟩
  one : (readInside content).outcome = .error .notNumeric →
    skipBlanks (readInside content).rest = [] → ∀ bound after, content.length < bound →
    unary (bound + 1) (Byte.openParen :: (content ++ Byte.closeParen :: after)) =
      ⟨.ok (.int 1), after⟩
  early : StopsEarly content → ∀ bound after, content.length < bound →
    unary (bound + 1) (Byte.openParen :: (content ++ Byte.closeParen :: after)) =
      ⟨.error .missingParenthesis,
        skipBlanks (readInside content).rest ++ Byte.closeParen :: after⟩
  faulty : ∀ fault, (readInside content).outcome = .error fault → fault ≠ .notNumeric →
    ∀ bound after, content.length < bound →
    unary (bound + 1) (Byte.openParen :: (content ++ Byte.closeParen :: after)) =
      ⟨.error fault, (readInside content).rest ++ Byte.closeParen :: after⟩

/-- This is so for every content whose parentheses match. -/
theorem Nested.groupEnds
    {content : Text}
    (nested : Nested content) :
    GroupEnds content := by
  constructor
  case number =>
    intro value isValue noneLeft bound after fits
    simp only [unary_group nested fits, endGroup, settle, isValue, noneLeft]
  case one =>
    intro notNumeric noneLeft bound after fits
    simp only [unary_group nested fits, endGroup, settle, notNumeric, noneLeft]
  case early =>
    rintro ⟨settles, isLeft⟩ bound after fits
    rw [unary_group nested fits]
    obtain ⟨fault, faulty, numeric, -⟩ | ⟨-, noneLeft, -⟩ | ⟨-, -, isEnd⟩ :=
      endGroup_cases (readInside content) after
    · exact absurd (settles.eq_notNumeric faulty) numeric
    · exact absurd noneLeft isLeft
    · exact isEnd
  case faulty =>
    intro fault faulty numeric bound after fits
    rw [unary_group nested fits]
    obtain ⟨other, faultyToo, -, isEnd⟩ | ⟨settles, -, -⟩ | ⟨settles, -, -⟩ :=
      endGroup_cases (readInside content) after
    · rw [faulty] at faultyToo
      cases faultyToo
      exact isEnd
    · exact absurd (settles.eq_notNumeric faulty) numeric
    · exact absurd (settles.eq_notNumeric faulty) numeric

/--
In a text in which each opening parenthesis has its matching one, a parenthesis is missed if and
only if reading ends in a group that stops early, just where its content alone stops.  What becomes
of a group depends on its content only.
-/
theorem parenthesis_missed_iff_ends_early
    (text : Text)
    (closes : EachCloses text) :
    (evaluate text = .error .missingParenthesis ↔ EndsEarly text (read text).rest) ∧
      ∀ front content after,
        text = front ++ Byte.openParen :: (content ++ Byte.closeParen :: after) →
        Nested content → GroupEnds content :=
  ⟨evaluate_missing_iff closes, fun _ _ _ _ nested => nested.groupEnds⟩

/-- In the first group an operand is missing at the end, and in the second one it is no number. -/
def twoGroups : Text :=
  Text.ofString "(1+)*(x)"

/-- Its parentheses match. -/
theorem nested_twoGroups :
    Nested twoGroups :=
  .group (.byte (by decide) (by decide) (.byte (by decide) (by decide) .nil))
    (.byte (by decide) (by decide) (.group (.byte (by decide) (by decide) .nil) .nil))

/-- The first group counts as one, and the second one misses its parenthesis. -/
theorem parenthesis_missed_iff_ends_early_second :
    EachCloses twoGroups ∧
      EndsEarly twoGroups (read twoGroups).rest ∧
      unary 4 (Byte.openParen :: (Text.ofString "1+" ++ Byte.closeParen :: Text.ofString "*(x)")) =
        ⟨.ok (.int 1), Text.ofString "*(x)"⟩ := by
  have closes := nested_twoGroups.eachCloses
  obtain ⟨missed, ends⟩ := parenthesis_missed_iff_ends_early twoGroups closes
  have missing : evaluate twoGroups = .error .missingParenthesis := rfl
  have nestedSum : Nested (Text.ofString "1+") :=
    .byte (by decide) (by decide) (.byte (by decide) (by decide) .nil)
  have notNumeric : (readInside (Text.ofString "1+")).outcome = .error .notNumeric := rfl
  have noneLeft : skipBlanks (readInside (Text.ofString "1+")).rest = [] := by decide +kernel
  have counts := ends [] (Text.ofString "1+") (Text.ofString "*(x)") rfl nestedSum
  exact ⟨closes, missed.mp missing, counts.one notNumeric noneLeft 3 _ (by decide)⟩

/-- A group that is closed misses its parenthesis. -/
theorem closed_group_misses_parenthesis :
    EachCloses (Text.ofString "(x)+2") ∧
      evaluate (Text.ofString "(x)+2") = .error .missingParenthesis := by
  have nested : Nested (Text.ofString "(x)+2") :=
    .group (.byte (by decide) (by decide) .nil)
      (.byte (by decide) (by decide) (.byte (by decide) (by decide) .nil))
  exact ⟨nested.eachCloses, rfl⟩

end LittleScript.Expression
