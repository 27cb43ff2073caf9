import LittleScript.Proofs.ExpressionReading
import LittleScript.Proofs.GuardedReading

namespace LittleScript.Guarded

/-!
# Expressions within bounds

Expressions are evaluated here by position.  Looks outside of the text, divisions of integers by
zero and shifts by fewer than no places have no result.  None of them happens: every expression has
its usual value.
-/

open Expression (Fault Operator Sign levels)

variable {σ : Type}

/-! ## Operators -/

/-- The quotient of integers, of which the second must not be zero. -/
def quotient (left right : Int64) : Option Int64 :=
  if right = 0 then none else some (left / right)

/-- The remainder of integers, of which the second must not be zero. -/
def remainder (left right : Int64) : Option Int64 :=
  if right = 0 then none else some (left % right)

/-- Shift by a count of places, which must not be negative. -/
def shift (shifted : Int64 → Int64 → Int64) (number count : Int64) : Option Int64 :=
  if count < 0 then none else some (shifted number count)

/-- The result of a binary operator. -/
def apply (operator : Operator) (left right : Number) : Option (Except Fault Number) :=
  match operator with
  | .shiftLeft => do
      if right.toInt < 0 then return .error .negativeShift
      return .ok (.int (← shift Integer.shiftLeft left.toInt right.toInt))
  | .shiftRight => do
      if right.toInt < 0 then return .error .negativeShift
      return .ok (.int (← shift Integer.shiftRight left.toInt right.toInt))
  | .quotient => do
      if right.isZero then return .error .divisionByZero
      match left, right with
      | .int left, .int right => return .ok (.int (← quotient left right))
      | left, right => return .ok (.int (Binary64.truncate (left.toFloat / right.toFloat)))
  | .remainder => do
      if right.isZero then return .error .divisionByZero
      match left, right with
      | .int left, .int right => return .ok (.int (← remainder left right))
      | left, right => return .ok (.float (Binary64.remainder left.toFloat right.toFloat))
  | operator => some (operator.apply left right)

theorem apply_eq
    (operator : Operator)
    (left right : Number) :
    apply operator left right = some (operator.apply left right) := by
  cases operator with
  | shiftLeft =>
      simp only [apply, Operator.apply, shift]
      split <;> rfl
  | shiftRight =>
      simp only [apply, Operator.apply, shift]
      split <;> rfl
  | quotient =>
      simp only [apply, Operator.apply]
      split
      case isTrue => rfl
      case isFalse nonzero =>
        cases left with
        | float left => rfl
        | int left =>
            cases right with
            | float right => rfl
            | int right =>
                have notZero : right ≠ 0 := by simpa [Number.isZero] using nonzero
                simp only [quotient, notZero, if_false]
                rfl
  | remainder =>
      simp only [apply, Operator.apply]
      split
      case isTrue => rfl
      case isFalse nonzero =>
        cases left with
        | float left => rfl
        | int left =>
            cases right with
            | float right => rfl
            | int right =>
                have notZero : right ≠ 0 := by simpa [Number.isZero] using nonzero
                simp only [remainder, notZero, if_false]
                rfl
  | _ => rfl

/-- The operator of a level at a position, with the position behind it. -/
def operatorAt (level : Nat) (code : Text) (head : Nat) : Option (Option (Operator × Nat)) := do
  let first ← peek code head
  let second ← peek code (head + 1)
  return (Operator.read? level [first, second]).map fun found =>
    (found.1, head + (2 - found.2.length))

/-- A byte other than zero that is seen at the front of a text is there. -/
theorem exists_of_window
    {text tail : Text}
    {first : UInt8}
    (seen : [text[0]?.getD 0, text[1]?.getD 0] = first :: tail)
    (isByte : first ≠ 0) :
    ∃ rest, text = first :: rest := by
  cases text with
  | nil =>
      cases seen
      exact absurd rfl isByte
  | cons byte rest =>
      cases seen
      exact ⟨rest, rfl⟩

theorem exists_of_window_two
    {text tail : Text}
    {first second : UInt8}
    (seen : [text[0]?.getD 0, text[1]?.getD 0] = first :: second :: tail)
    (isByte : first ≠ 0)
    (isSecond : second ≠ 0) :
    ∃ rest, text = first :: second :: rest := by
  obtain ⟨rest, rfl⟩ := exists_of_window seen isByte
  cases rest with
  | nil =>
      cases seen
      exact absurd rfl isSecond
  | cons byte rest =>
      cases seen
      exact ⟨rest, rfl⟩

/-- An operator is known by two bytes; behind the end of the text zeros do for them. -/
theorem read?_window
    (level : Nat)
    (text : Text) :
    Operator.read? level text =
      (Operator.read? level [text[0]?.getD 0, text[1]?.getD 0]).map fun found =>
        (found.1, text.drop (2 - found.2.length)) := by
  have doubles : ∀ {byte : UInt8} {rest : Text}, (rest.head? == some byte) = true →
      ∃ after, rest = byte :: after := by
    intro byte rest doubled
    cases rest with
    | nil => cases doubled
    | cons next after => exact ⟨after, by simpa using doubled⟩
  have single : ∀ {level : Nat} {first next : UInt8} {operator : Operator} (after : Text),
      Operator.read? level [first, next] = some (operator, [next]) →
      some (operator, next :: after) = (Operator.read? level [first, next]).map fun found =>
        (found.1, (first :: next :: after).drop (2 - found.2.length)) := by
    intro level first next operator after read
    rw [read]
    rfl
  fun_cases Operator.read? level text
  case case3 rest doubled =>
    obtain ⟨after, rfl⟩ := doubles doubled
    rfl
  case case4 rest alone =>
    cases rest with
    | nil => rfl
    | cons next after =>
        exact single after ((Expression.Operator.read?.eq_3 [next]).trans (if_neg alone))
  case case5 rest doubled =>
    obtain ⟨after, rfl⟩ := doubles doubled
    rfl
  case case6 rest alone =>
    cases rest with
    | nil => rfl
    | cons next after =>
        exact single after ((Expression.Operator.read?.eq_4 [next]).trans (if_neg alone))
  case case11 rest notShift notEqual =>
    cases rest with
    | nil => rfl
    | cons next after =>
        exact single after (Expression.Operator.read?.eq_9 [next]
          (fun _ same => notShift after (by cases same; rfl))
          (fun _ same => notEqual after (by cases same; rfl)))
  case case14 rest notShift notEqual =>
    cases rest with
    | nil => rfl
    | cons next after =>
        exact single after (Expression.Operator.read?.eq_12 [next]
          (fun _ same => notShift after (by cases same; rfl))
          (fun _ same => notEqual after (by cases same; rfl)))
  case case23 =>
    rw [Expression.Operator.read?.eq_21, Option.map_none]
    all_goals
      intro tail isLevel seen
      first
      | obtain ⟨rest, isText⟩ := exists_of_window_two seen (by decide) (by decide)
        solve_by_elim
      | obtain ⟨rest, isText⟩ := exists_of_window seen (by decide)
        solve_by_elim
  all_goals rfl

theorem operatorAt_eq
    (level : Nat)
    (code : Text)
    (head : Nat) :
    ∃ found, operatorAt level code head = some found ∧
      Operator.read? level (code.drop head) =
        found.map fun operator => (operator.1, code.drop operator.2) := by
  rw [operatorAt, peek_eq, peek_eq]
  refine ⟨_, rfl, ?_⟩
  rw [read?_window, Option.map_map]
  simp only [List.getElem?_drop, Nat.add_zero, List.drop_drop]
  rfl

/-! ## Literals -/

/-- A value or fault, and the position behind what was read. -/
structure Reading where
  outcome : Except Fault Number
  head : Nat

/-- A reading with the text that is left. -/
def Reading.shown (code : Text) (reading : Reading) : Expression.Reading :=
  ⟨reading.outcome, code.drop reading.head⟩

/-- The value of digits, which may have a point among them. -/
def literalValue (digits : Text) (sawPoint : Bool) : Except Fault Number :=
  if sawPoint then
    match Binary64.read? digits with
    | some value => .ok (.float value)
    | none => .error .notNumeric
  else
    match Integer.read? digits with
    | some value => .ok (.int value)
    | none =>
        match Binary64.readRounded? digits with
        | some rounded => .ok (.float rounded.value)
        | none => .ok (.float 0)

/-- Move past digits and a point that is not the first byte. -/
def literalEnd (code : Text) (start head : Nat) (sawPoint : Bool) : Option (Nat × Bool) :=
  if code.length ≤ head then some (head, sawPoint)
  else do
    let byte ← element code head
    if byte == Byte.dot && !sawPoint && start < head then literalEnd code start (head + 1) true
    else if Byte.isDigit byte then literalEnd code start (head + 1) sawPoint
    else return (head, sawPoint)
  termination_by code.length - head

/-- Read a literal. -/
def literalAt (code : Text) (head : Nat) : Option Reading := do
  let (stop, sawPoint) ← literalEnd code head head false
  if stop = head then return ⟨.error .notNumeric, head⟩
  return ⟨literalValue (← slice code head stop) sawPoint, stop⟩

/-- The first byte decides how a literal goes on. -/
theorem literal_cons
    (byte : UInt8)
    (rest : Text)
    (sawPoint : Bool)
    (digits : Text) :
    Expression.literal (byte :: rest) sawPoint digits =
      if byte == Byte.dot && !sawPoint && !digits.isEmpty then
        Expression.literal rest true (byte :: digits)
      else if Byte.isDigit byte then Expression.literal rest sawPoint (byte :: digits)
      else (digits.reverse, sawPoint, byte :: rest) := by
  have notDigit : Byte.isDigit Byte.dot = false := rfl
  by_cases isDot : byte = Byte.dot
  · subst isDot
    rcases sawPoint with _ | _
    · cases digits with
      | nil => rfl
      | cons digit digits => rfl
    · rfl
  · rw [Expression.literal.eq_def]
    split <;> simp_all

/-- A literal is a slice of the text. -/
theorem literal_eq
    (code : Text)
    (start head : Nat) :
    ∀ (sawPoint : Bool) (digits : Text), start ≤ head → head ≤ code.length →
      digits.reverse = (code.drop start).take (head - start) →
      ∃ stop point, literalEnd code start head sawPoint = some (stop, point) ∧ head ≤ stop ∧
        stop ≤ code.length ∧
        Expression.literal (code.drop head) sawPoint digits =
          ((code.drop start).take (stop - start), point, code.drop stop) := by
  induction head using scan_induction code with
  | done head past rest =>
      intro sawPoint digits ordered inside read
      refine ⟨head, sawPoint, by rw [literalEnd, if_pos past], Nat.le_refl head, inside, ?_⟩
      rw [rest, Expression.literal, read]
  | on head byte within here rest inductionHypothesis =>
      intro sawPoint digits ordered inside read
      have size : digits.length = head - start := by
        rw [← List.length_reverse, read, List.length_take, List.length_drop]
        omega
      have isFirst : (!digits.isEmpty) = decide (start < head) := by
        rw [Bool.eq_iff_iff]
        simp only [Bool.not_eq_true', List.isEmpty_eq_false_iff, ← List.length_pos_iff, size,
          decide_eq_true_eq]
        omega
      have goesOn : ∀ point : Bool,
          ∃ stop sawPoint, literalEnd code start (head + 1) point = some (stop, sawPoint) ∧
            head ≤ stop ∧ stop ≤ code.length ∧
            Expression.literal (code.drop (head + 1)) point (byte :: digits) =
              ((code.drop start).take (stop - start), sawPoint, code.drop stop) := by
        intro point
        have oneMore : (byte :: digits).reverse = (code.drop start).take (head + 1 - start) := by
          have isByte : (code.drop start)[head - start]? = some byte := by
            rw [List.getElem?_drop, Nat.add_sub_of_le ordered, ← List.head?_drop, rest]
            rfl
          rw [Nat.succ_sub ordered, List.take_add_one, isByte, List.reverse_cons, read]
          rfl
        obtain ⟨stop, sawPoint, found, further, ends, same⟩ := inductionHypothesis (head + 1)
          (Nat.lt_succ_self head) point (byte :: digits) (Nat.le_succ_of_le ordered) within oneMore
        exact ⟨stop, sawPoint, found, Nat.le_of_succ_le further, ends, same⟩
      rw [literalEnd, if_neg (Nat.not_le_of_lt within), here, rest, literal_cons, isFirst]
      simp only [Option.bind_eq_bind, Option.bind_some]
      split
      case isTrue => exact goesOn true
      case isFalse =>
        split
        case isTrue => exact goesOn sawPoint
        case isFalse =>
          refine ⟨head, sawPoint, rfl, Nat.le_refl head, inside, ?_⟩
          rw [read, rest]

/-- A literal that is not empty has the value of its digits. -/
theorem element_of_literal
    {text digits rest : Text}
    {sawPoint : Bool}
    (split : Expression.literal text false [] = (digits, sawPoint, rest))
    (nonempty : digits ≠ []) :
    Expression.element text = ⟨literalValue digits sawPoint, rest⟩ := by
  obtain ⟨digit, others, rfl⟩ := List.exists_cons_of_ne_nil nonempty
  rw [Expression.element, split, literalValue]
  cases sawPoint with
  | true =>
      simp only [if_true]
      cases Binary64.read? (digit :: others) <;> rfl
  | false =>
      simp only [Bool.false_eq_true, if_false]
      cases Integer.read? (digit :: others) with
      | some value => rfl
      | none => cases Binary64.readRounded? (digit :: others) <;> rfl

theorem literalAt_eq
    (code : Text)
    (head : Nat) :
    ∃ reading, literalAt code head = some reading ∧
      Expression.element (code.drop head) = reading.shown code := by
  by_cases inside : head ≤ code.length
  · obtain ⟨stop, point, found, ordered, ends, same⟩ :=
      literal_eq code head head false [] (Nat.le_refl head) inside (by simp)
    rw [literalAt, found]
    simp only [Option.bind_eq_bind, Option.bind_some]
    by_cases nothing : stop = head
    · rw [nothing, Nat.sub_self] at same
      rw [if_pos nothing, Expression.element, same]
      exact ⟨_, rfl, rfl⟩
    · have nonempty : (code.drop head).take (stop - head) ≠ [] := by
        rw [← List.length_pos_iff, List.length_take, List.length_drop]
        omega
      rw [if_neg nothing, slice_of_inside ordered ends, element_of_literal same nonempty]
      exact ⟨_, rfl, rfl⟩
  · have past : code.length ≤ head := by omega
    rw [literalAt, literalEnd, if_pos past, List.drop_eq_nil_of_le past]
    refine ⟨⟨.error .notNumeric, head⟩, if_pos rfl, ?_⟩
    rw [Reading.shown, List.drop_eq_nil_of_le past]
    rfl

/-! ## Expressions -/

/-- Move past blanks. -/
def spacesFrom (code : Text) (head : Nat) : Option Nat :=
  skipWhile Byte.isSpace code head

/-- Continue a left-associative chain of one level after its first operand. -/
def chain (code : Text) (level : Nat) (operand : Nat → Option Reading) :
    Nat → Number → Nat → Option Reading
  | 0, left, head => some ⟨.ok left, head⟩
  | bound + 1, left, head => do
      let head ← spacesFrom code head
      match ← operatorAt level code head with
      | none => return ⟨.ok left, head⟩
      | some (operator, next) =>
          let right ← operand next
          match right.outcome with
          | .error fault => return ⟨.error fault, right.head⟩
          | .ok value =>
              match ← apply operator left value with
              | .error fault => return ⟨.error fault, right.head⟩
              | .ok result => chain code level operand bound result right.head

/-- Read an expression of the last `tighter` levels, with at most `bound` operators a level. -/
def binary (code : Text) (unary : Nat → Option Reading) (bound : Nat) :
    Nat → Nat → Option Reading
  | 0, head => unary head
  | tighter + 1, head => do
      let left ← binary code unary bound tighter head
      match left.outcome with
      | .error fault => return ⟨.error fault, left.head⟩
      | .ok value =>
          chain code (levels - (tighter + 1)) (binary code unary bound tighter) bound value
            left.head

/-- A group whose operand is no number counts as one. -/
def settle (reading : Reading) : Reading :=
  match reading.outcome with
  | .error .notNumeric => ⟨.ok (.int 1), reading.head⟩
  | _ => reading

/-- Read the parenthesis that closes a group. -/
def closeGroup (code : Text) (group : Reading) : Option Reading := do
  match group.outcome with
  | .error fault => return ⟨.error fault, group.head⟩
  | .ok value =>
      let head ← spacesFrom code group.head
      if (← peek code head) == Byte.closeParen then return ⟨.ok value, head + 1⟩
      else return ⟨.error .missingParenthesis, head⟩

/-- Read signs, then a group in parentheses or a literal. -/
def unary (code : Text) : Nat → Nat → Option Reading
  | 0, head => some ⟨.error .notNumeric, head⟩
  | bound + 1, head => do
      let head ← spacesFrom code head
      let first ← peek code head
      match Sign.read? [first] with
      | some (sign, _) =>
          let operand ← unary code bound (head + 1)
          match operand.outcome with
          | .ok value => return ⟨.ok (sign.apply value), operand.head⟩
          | .error fault => return ⟨.error fault, operand.head⟩
      | none =>
          if first == Byte.openParen then
            let group ← binary code (unary code bound) (bound + 1) levels (head + 1)
            closeGroup code (settle group)
          else literalAt code head

/-- The value of an expression; the empty one is zero. -/
def evaluateExpression (code : Text) : Option (Except Fault Number) := do
  if code.isEmpty then return .ok (.int 0)
  let reading ← binary code (unary code (code.length + 1)) (code.length + 1) levels 0
  return (settle reading).outcome

/-- A way to read by position gives what a way to read a text gives of what is left there. -/
def Follows (code : Text) (guarded : Nat → Option Reading) (read : Text → Expression.Reading) :
    Prop :=
  ∀ head, ∃ reading, guarded head = some reading ∧ read (code.drop head) = reading.shown code

theorem spacesFrom_eq
    (code : Text)
    (head : Nat) :
    ∃ stop, spacesFrom code head = some stop ∧
      Expression.skipBlanks (code.drop head) = code.drop stop :=
  ⟨_, skipWhile_eq Byte.isSpace code head, (drop_runEnd Byte.isSpace code head).symm⟩

theorem chain_eq
    {code : Text}
    (level : Nat)
    {operand : Nat → Option Reading}
    {read : Text → Expression.Reading}
    (operands : Follows code operand read)
    (bound : Nat) :
    ∀ left : Number, Follows code (chain code level operand bound left)
      (Expression.chain level read bound left) := by
  induction bound with
  | zero =>
      exact fun left head => ⟨_, rfl, rfl⟩
  | succ bound inductionHypothesis =>
      intro left head
      obtain ⟨stop, moved, skipped⟩ := spacesFrom_eq code head
      obtain ⟨found, looked, known⟩ := operatorAt_eq level code stop
      rw [chain, Expression.chain, moved, skipped, known]
      simp only [Option.bind_eq_bind, Option.bind_some, looked]
      cases found with
      | none =>
          exact ⟨_, rfl, rfl⟩
      | some found =>
          obtain ⟨operator, next⟩ := found
          obtain ⟨right, ran, same⟩ := operands next
          simp only [Option.map_some, ran, same, Option.bind_some, Reading.shown]
          obtain ⟨outcome, after⟩ := right
          cases outcome with
          | error fault =>
              exact ⟨_, rfl, rfl⟩
          | ok value =>
              simp only [apply_eq, Option.bind_some]
              cases operator.apply left value with
              | error fault => exact ⟨_, rfl, rfl⟩
              | ok result => exact inductionHypothesis result after

theorem binary_eq
    {code : Text}
    {guarded : Nat → Option Reading}
    {read : Text → Expression.Reading}
    (operands : Follows code guarded read)
    (bound tighter : Nat) :
    Follows code (binary code guarded bound tighter) (Expression.binary read bound tighter) := by
  induction tighter with
  | zero =>
      exact operands
  | succ tighter inductionHypothesis =>
      intro head
      obtain ⟨left, ran, same⟩ := inductionHypothesis head
      rw [binary, Expression.binary, ran, same]
      simp only [Option.bind_eq_bind, Option.bind_some, Reading.shown]
      obtain ⟨outcome, after⟩ := left
      cases outcome with
      | error fault => exact ⟨_, rfl, rfl⟩
      | ok value => exact chain_eq _ inductionHypothesis bound value after

theorem settle_shown
    (code : Text)
    (reading : Reading) :
    Expression.settle (reading.shown code) = (settle reading).shown code := by
  rw [Expression.settle, settle, Reading.shown]
  obtain ⟨outcome, head⟩ := reading
  cases outcome with
  | ok value => rfl
  | error fault => cases fault <;> rfl

/-- A sign is known by one byte. -/
theorem sign_read?_cons
    (byte : UInt8)
    (rest : Text) :
    Sign.read? (byte :: rest) = (Sign.read? [byte]).map fun found => (found.1, rest) := by
  generalize isText : byte :: rest = text
  fun_cases Sign.read? text
  case case5 noMinus noPlus noTilde noBang =>
    rw [Expression.Sign.read?.eq_5, Option.map_none]
    all_goals
      intro tail seen
      cases seen
      cases isText
      solve_by_elim
  all_goals
    cases isText
    rfl

theorem closeGroup_eq
    (code : Text)
    (group : Reading) :
    ∃ reading, closeGroup code group = some reading ∧
      Expression.closeGroup (group.shown code) = reading.shown code := by
  obtain ⟨outcome, after⟩ := group
  cases outcome with
  | error fault =>
      exact ⟨_, rfl, rfl⟩
  | ok value =>
      obtain ⟨stop, moved, skipped⟩ := spacesFrom_eq code after
      simp only [closeGroup, Expression.closeGroup, Reading.shown, moved, skipped, Option.bind_eq_bind,
        Option.bind_some]
      cases facing code stop with
      | done past rest =>
          rw [peek_done past, rest]
          exact ⟨⟨.error .missingParenthesis, stop⟩, rfl, by rw [rest]⟩
      | on byte inside here rest =>
          rw [peek_on inside here, rest]
          by_cases closes : byte = Byte.closeParen
          · subst closes
            exact ⟨_, rfl, rfl⟩
          · refine ⟨⟨.error .missingParenthesis, stop⟩, if_neg (by simpa using closes), ?_⟩
            rw [rest]
            split
            case h_1 shape =>
              cases shape
              exact absurd rfl closes
            case h_2 => rfl

/-- Without a sign an operand is a group or a literal. -/
theorem unary_of_unsigned
    (bound : Nat)
    {text rest : Text}
    {byte : UInt8}
    (skipped : Expression.skipBlanks text = byte :: rest)
    (unsigned : Sign.read? (byte :: rest) = none) :
    Expression.unary (bound + 1) text =
      if byte == Byte.openParen then
        Expression.closeGroup (Expression.settle
          (Expression.binary (Expression.unary bound) (bound + 1) levels rest))
      else Expression.element (byte :: rest) := by
  rw [Expression.unary, skipped, unsigned]
  by_cases isParen : byte = Byte.openParen
  · subst isParen
    rfl
  · rw [if_neg (by simpa using isParen)]
    simp only
    split
    case h_1 shape =>
      cases shape
      exact absurd rfl isParen
    case h_2 => rfl

theorem unary_eq
    (code : Text)
    (bound : Nat) :
    Follows code (unary code bound) (Expression.unary bound) := by
  induction bound with
  | zero =>
      exact fun head => ⟨_, rfl, rfl⟩
  | succ bound inductionHypothesis =>
      intro head
      obtain ⟨stop, moved, skipped⟩ := spacesFrom_eq code head
      rw [unary, moved]
      simp only [Option.bind_eq_bind, Option.bind_some]
      cases facing code stop with
      | done past rest =>
          obtain ⟨reading, ran, same⟩ := literalAt_eq code stop
          rw [rest] at same skipped
          rw [peek_done past, Expression.unary, skipped]
          exact ⟨reading, ran, same⟩
      | on byte inside here rest =>
          have signed := sign_read?_cons byte (code.drop (stop + 1))
          rw [rest] at skipped
          rw [peek_on inside here]
          simp only [Option.bind_some]
          cases known : Sign.read? [byte] with
          | some found =>
              obtain ⟨operand, ran, same⟩ := inductionHypothesis (stop + 1)
              rw [known] at signed
              simp only [Expression.unary, skipped, signed, Option.map_some, ran, same,
                Option.bind_some, Reading.shown]
              obtain ⟨outcome, after⟩ := operand
              cases outcome with
              | error fault => exact ⟨_, rfl, rfl⟩
              | ok value => exact ⟨_, rfl, rfl⟩
          | none =>
              rw [known] at signed
              rw [unary_of_unsigned bound skipped signed]
              simp only
              split
              case isTrue =>
                obtain ⟨group, ran, same⟩ :=
                  binary_eq inductionHypothesis (bound + 1) levels (stop + 1)
                simp only [ran, same, settle_shown, Option.bind_some]
                exact closeGroup_eq code (settle group)
              case isFalse =>
                rw [← rest]
                exact literalAt_eq code stop

/-- Every expression is evaluated within bounds, without dividing by zero or shifting backwards. -/
theorem evaluateExpression_eq
    (text : Text) :
    evaluateExpression text = some (Expression.evaluate text) := by
  rw [evaluateExpression, Expression.evaluate]
  split
  case isTrue => rfl
  case isFalse =>
    obtain ⟨reading, ran, same⟩ :=
      binary_eq (unary_eq text (text.length + 1)) (text.length + 1) levels 0
    rw [List.drop_zero] at same
    rw [ran, Expression.read, same, settle_shown]
    rfl

/-- Evaluate an arithmetic expression; there is no value when an error is pending afterwards. -/
def expression (run : Run σ) (code : Text) : Eval σ (Option Text) := do
  let text := Text.joinSpaced (← readList run code)
  if ← Eval.hasError then return none
  match ← access (evaluateExpression text) with
  | .ok number => return some number.text
  | .error fault =>
      Eval.raise (.arithmetic fault)
      return none

theorem expression_eq
    (run : Run σ)
    (code : Text) :
    Eval.expression run code = expression run code := by
  simp only [Eval.expression, expression, Eval.readJoined, readList_eq, evaluateExpression_eq,
    access_some, bind_assoc]
  rfl

end LittleScript.Guarded
