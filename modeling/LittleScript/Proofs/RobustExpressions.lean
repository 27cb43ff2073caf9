import LittleScript.Proofs.GuardedExpression

namespace LittleScript.Guarded

/-!
# Robust expressions

Whatever its text, an expression is read from its front to some place in it.  Every level of the
reader goes forward, and never past the end; an operator, a sign and an opening parenthesis each
take a byte, so reading ends.  The mark of an operand that is no number becomes a one at the group
around it, and at the latest at the end.
-/

open Expression (Fault Operator Sign levels)

/-! ## The reader goes forward -/

/-- `Advances code guarded`: reading by position goes forward, and not past the end of a text. -/
def Advances (code : Text) (guarded : Nat → Option Reading) : Prop :=
  ∀ head, head ≤ code.length → ∃ reading, guarded head = some reading ∧
    head ≤ reading.head ∧ reading.head ≤ code.length

theorem spacesFrom_bounds
    {code : Text}
    {head : Nat}
    (inside : head ≤ code.length) :
    ∃ stop, spacesFrom code head = some stop ∧ head ≤ stop ∧ stop ≤ code.length := by
  refine ⟨_, skipWhile_eq Byte.isSpace code head, Nat.le_add_right .., ?_⟩
  have atMost := (List.takeWhile_prefix (l := code.drop head) Byte.isSpace).length_le
  rw [List.length_drop] at atMost
  rw [runEnd]
  omega

/-- An operator is read as it is written. -/
theorem eq_of_read?
    {level : Nat}
    {text rest : Text}
    {operator : Operator}
    (read : Operator.read? level text = some (operator, rest)) :
    text = operator.symbol ++ rest := by
  revert read
  fun_cases Operator.read? level text <;> intro read <;> cases read <;> rfl

/-- An operator is written with one byte or two, none of which is zero. -/
theorem symbol_cases
    (operator : Operator) :
    (∃ byte, operator.symbol = [byte] ∧ byte ≠ 0) ∨
      ∃ first second, operator.symbol = [first, second] ∧ first ≠ 0 ∧ second ≠ 0 := by
  cases operator <;>
    first
    | exact .inl ⟨_, rfl, by decide⟩
    | exact .inr ⟨_, _, rfl, by decide, by decide⟩

/-- The place behind an operator lies behind its own, in the text. -/
theorem operatorAt_bounds
    {level : Nat}
    {code : Text}
    {head next : Nat}
    {operator : Operator}
    (found : operatorAt level code head = some (some (operator, next))) :
    head < next ∧ next ≤ code.length := by
  rw [operatorAt, peek_eq, peek_eq] at found
  simp only [Option.bind_eq_bind, Option.bind_some, Option.pure_def, Option.some.injEq,
    Option.map_eq_some_iff, Prod.mk.injEq] at found
  obtain ⟨⟨operator, rest⟩, read, rfl, rfl⟩ := found
  have isThere : ∀ {position : Nat}, code[position]?.getD 0 ≠ 0 → position < code.length := by
    intro position isByte
    by_contra past
    exact isByte (by rw [List.getElem?_eq_none (Nat.le_of_not_lt past)]; rfl)
  have window := eq_of_read? read
  rcases symbol_cases operator with ⟨byte, symbol, isByte⟩ | ⟨first, second, symbol, -, isByte⟩
  · rw [symbol] at window
    obtain ⟨isFirst, rfl⟩ := List.cons.inj window
    have within := isThere (isFirst ▸ isByte)
    exact ⟨Nat.lt_succ_self head, within⟩
  · rw [symbol] at window
    obtain ⟨-, isRest⟩ := List.cons.inj window
    obtain ⟨isSecond, rfl⟩ := List.cons.inj isRest
    have within := isThere (isSecond ▸ isByte)
    exact ⟨Nat.lt_add_of_pos_right Nat.two_pos, within⟩

theorem literalAt_advances
    (code : Text) :
    Advances code (literalAt code) := by
  intro head inside
  obtain ⟨stop, point, found, ordered, ends, -⟩ :=
    literal_eq code head head false [] (Nat.le_refl head) inside (by simp)
  rw [literalAt, found]
  simp only [Option.bind_eq_bind, Option.bind_some]
  split
  case isTrue => exact ⟨_, rfl, Nat.le_refl head, inside⟩
  case isFalse =>
    rw [slice_of_inside ordered ends]
    exact ⟨_, rfl, ordered, ends⟩

theorem chain_advances
    {code : Text}
    (level : Nat)
    {operand : Nat → Option Reading}
    (operands : Advances code operand)
    (bound : Nat) :
    ∀ left : Number, Advances code (chain code level operand bound left) := by
  induction bound with
  | zero =>
      exact fun left head inside => ⟨_, rfl, Nat.le_refl head, inside⟩
  | succ bound inductionHypothesis =>
      intro left head inside
      obtain ⟨stop, moved, further, stays⟩ := spacesFrom_bounds inside
      obtain ⟨found, looked, -⟩ := operatorAt_eq level code stop
      rw [chain, moved]
      simp only [Option.bind_eq_bind, Option.bind_some, looked]
      cases found with
      | none =>
          exact ⟨_, rfl, further, stays⟩
      | some found =>
          obtain ⟨operator, next⟩ := found
          obtain ⟨behind, within⟩ := operatorAt_bounds looked
          obtain ⟨⟨outcome, after⟩, ran, ordered, ends⟩ := operands next within
          simp only at ordered ends
          have forward : head ≤ after := by omega
          simp only [ran, Option.bind_some]
          cases outcome with
          | error fault =>
              exact ⟨_, rfl, forward, ends⟩
          | ok value =>
              simp only [apply_eq, Option.bind_some]
              cases operator.apply left value with
              | error fault =>
                  exact ⟨_, rfl, forward, ends⟩
              | ok result =>
                  obtain ⟨reading, goesOn, later, last⟩ := inductionHypothesis result after ends
                  exact ⟨reading, goesOn, by omega, last⟩

theorem binary_advances
    {code : Text}
    {operand : Nat → Option Reading}
    (operands : Advances code operand)
    (bound tighter : Nat) :
    Advances code (binary code operand bound tighter) := by
  induction tighter with
  | zero =>
      exact operands
  | succ tighter inductionHypothesis =>
      intro head inside
      obtain ⟨⟨outcome, after⟩, ran, ordered, ends⟩ := inductionHypothesis head inside
      simp only at ordered ends
      rw [binary, ran]
      simp only [Option.bind_eq_bind, Option.bind_some]
      cases outcome with
      | error fault =>
          exact ⟨_, rfl, ordered, ends⟩
      | ok value =>
          obtain ⟨reading, goesOn, later, last⟩ :=
            chain_advances (levels - (tighter + 1)) inductionHypothesis bound value after ends
          exact ⟨reading, goesOn, by omega, last⟩

theorem closeGroup_advances
    {code : Text}
    (group : Reading)
    (inside : group.head ≤ code.length) :
    ∃ reading, closeGroup code group = some reading ∧
      group.head ≤ reading.head ∧ reading.head ≤ code.length := by
  obtain ⟨outcome, head⟩ := group
  simp only at inside
  cases outcome with
  | error fault =>
      exact ⟨_, rfl, Nat.le_refl head, inside⟩
  | ok value =>
      obtain ⟨stop, moved, further, stays⟩ := spacesFrom_bounds inside
      simp only [closeGroup, moved, Option.bind_eq_bind, Option.bind_some]
      cases facing code stop with
      | done past rest =>
          rw [peek_done past]
          exact ⟨_, rfl, further, stays⟩
      | on byte within here rest =>
          rw [peek_on within here]
          simp only [Option.bind_some]
          split
          · exact ⟨_, rfl, Nat.le_succ_of_le further, within⟩
          · exact ⟨_, rfl, further, stays⟩

@[simp] theorem settle_head
    (reading : Reading) :
    (settle reading).head = reading.head := by
  rw [settle]
  split <;> rfl

theorem unary_advances
    (code : Text)
    (bound : Nat) :
    Advances code (unary code bound) := by
  induction bound with
  | zero =>
      exact fun head inside => ⟨_, rfl, Nat.le_refl head, inside⟩
  | succ bound inductionHypothesis =>
      intro head inside
      obtain ⟨stop, moved, further, stays⟩ := spacesFrom_bounds inside
      rw [unary, moved]
      simp only [Option.bind_eq_bind, Option.bind_some]
      cases facing code stop with
      | done past rest =>
          obtain ⟨reading, ran, ordered, ends⟩ := literalAt_advances code stop stays
          rw [peek_done past]
          exact ⟨reading, ran, by omega, ends⟩
      | on byte within here rest =>
          rw [peek_on within here]
          simp only [Option.bind_some]
          split
          case h_1 sign tail known =>
            obtain ⟨⟨outcome, after⟩, ran, ordered, ends⟩ := inductionHypothesis (stop + 1) within
            simp only at ordered ends
            have forward : head ≤ after := by omega
            simp only [ran, Option.bind_some]
            cases outcome with
            | error fault => exact ⟨_, rfl, forward, ends⟩
            | ok value => exact ⟨_, rfl, forward, ends⟩
          case h_2 unsigned =>
            split
            case isTrue =>
              obtain ⟨group, ran, ordered, ends⟩ :=
                binary_advances inductionHypothesis (bound + 1) levels (stop + 1) within
              obtain ⟨reading, closed, later, last⟩ :=
                closeGroup_advances (settle group) (by rwa [settle_head])
              rw [settle_head] at later
              simp only [ran, Option.bind_some]
              exact ⟨reading, closed, by omega, last⟩
            case isFalse =>
              obtain ⟨reading, ran, ordered, ends⟩ := literalAt_advances code stop stays
              exact ⟨reading, ran, by omega, ends⟩

/-- A level of the reader reads within bounds, goes forward and stays in the text. -/
theorem exists_reading
    (text : Text)
    (bound count tighter : Nat)
    {head : Nat}
    (inside : head ≤ text.length) :
    ∃ reading, binary text (unary text bound) count tighter head = some reading ∧
      head ≤ reading.head ∧ reading.head ≤ text.length ∧
      Expression.binary (Expression.unary bound) count tighter (text.drop head) =
        reading.shown text := by
  obtain ⟨reading, ran, same⟩ := binary_eq (unary_eq text bound) count tighter head
  obtain ⟨other, ranToo, ordered, ends⟩ :=
    binary_advances (unary_advances text bound) count tighter head inside
  obtain rfl : reading = other := Option.some.inj (ran.symm.trans ranToo)
  exact ⟨reading, ran, ordered, ends, same⟩

/-! ## Bounds that are never used up -/

theorem length_rest_le
    (bound count tighter : Nat)
    (text : Text) :
    (Expression.binary (Expression.unary bound) count tighter text).rest.length ≤ text.length := by
  obtain ⟨reading, -, -, -, same⟩ :=
    exists_reading text bound count tighter (Nat.zero_le text.length)
  rw [List.drop_zero] at same
  rw [same, Reading.shown, List.length_drop]
  exact Nat.sub_le ..

theorem length_skipBlanks_le
    (text : Text) :
    (Expression.skipBlanks text).length ≤ text.length :=
  (List.dropWhile_suffix _).length_le

/-- What is behind an operator is shorter than the text in front of it. -/
theorem length_lt_of_read?
    {level : Nat}
    {text rest : Text}
    {operator : Operator}
    (read : Operator.read? level (Expression.skipBlanks text) = some (operator, rest)) :
    rest.length < text.length := by
  have atMost := length_skipBlanks_le text
  rw [eq_of_read? read, List.length_append] at atMost
  have isWritten : 0 < operator.symbol.length := by
    rcases symbol_cases operator with ⟨_, symbol, -⟩ | ⟨_, _, symbol, -⟩ <;> simp [symbol]
  omega

/-- Operands that agree on what is shorter than a text agree in a chain over it. -/
theorem chain_congr
    {level : Nat}
    {operand other : Text → Expression.Reading}
    (shrinks : ∀ text, (operand text).rest.length ≤ text.length)
    (count : Nat) :
    ∀ (fewer : Nat) (left : Number) (text : Text),
      text.length < count → text.length < fewer →
      (∀ shorter, shorter.length < text.length → operand shorter = other shorter) →
      Expression.chain level operand count left text =
        Expression.chain level other fewer left text := by
  induction count with
  | zero =>
      intro fewer left text enough
      omega
  | succ count inductionHypothesis =>
      intro fewer left text enough enoughToo agree
      obtain ⟨fewer, rfl⟩ : ∃ less, fewer = less + 1 := ⟨fewer - 1, by omega⟩
      rw [Expression.chain, Expression.chain]
      cases read : Operator.read? level (Expression.skipBlanks text) with
      | none => rfl
      | some found =>
          obtain ⟨operator, behind⟩ := found
          have isShorter := length_lt_of_read? read
          have shrunk := shrinks behind
          simp only [← agree behind isShorter]
          generalize operand behind = reading at shrunk
          obtain ⟨outcome, rest⟩ := reading
          simp only at shrunk
          cases outcome with
          | error fault => rfl
          | ok right =>
              simp only
              cases operator.apply left right with
              | error fault => rfl
              | ok result =>
                  exact inductionHypothesis fewer result rest (by omega) (by omega)
                    fun shorter isSmall => agree shorter (by omega)

/-- Bounds that fit the text do not matter at the levels of binary operators. -/
theorem binary_congr
    {bound other size count fewer : Nat}
    (agree : ∀ text : Text, text.length ≤ size →
      Expression.unary bound text = Expression.unary other text)
    (enough : size < count)
    (enoughToo : size < fewer)
    (tighter : Nat) :
    ∀ text : Text, text.length ≤ size →
      Expression.binary (Expression.unary bound) count tighter text =
        Expression.binary (Expression.unary other) fewer tighter text := by
  induction tighter with
  | zero =>
      exact agree
  | succ tighter inductionHypothesis =>
      intro text fits
      have shrunk := length_rest_le bound count tighter text
      rw [Expression.binary, Expression.binary, ← inductionHypothesis text fits]
      generalize Expression.binary (Expression.unary bound) count tighter text = reading at shrunk
      obtain ⟨outcome, rest⟩ := reading
      simp only at shrunk
      cases outcome with
      | error fault => rfl
      | ok left =>
          exact chain_congr (length_rest_le bound count tighter) count fewer left rest (by omega)
            (by omega) fun shorter isShorter => inductionHypothesis shorter (by omega)

/-- Signs and groups each take a byte. -/
theorem unary_congr
    (bound : Nat) :
    ∀ (other : Nat) (text : Text), text.length < bound → text.length < other →
      Expression.unary bound text = Expression.unary other text := by
  induction bound with
  | zero =>
      intro other text enough
      omega
  | succ bound inductionHypothesis =>
      intro other text enough enoughToo
      obtain ⟨other, rfl⟩ : ∃ less, other = less + 1 := ⟨other - 1, by omega⟩
      have atMost := length_skipBlanks_le text
      cases skipped : Expression.skipBlanks text with
      | nil =>
          rw [Expression.unary, Expression.unary, skipped]
          rfl
      | cons byte rest =>
          rw [skipped, List.length_cons] at atMost
          cases signed : Sign.read? (byte :: rest) with
          | some found =>
              have isRest : found.2 = rest := by
                rw [sign_read?_cons] at signed
                obtain ⟨_, -, rfl⟩ := Option.map_eq_some_iff.mp signed
                rfl
              simp only [Expression.unary, skipped, signed, isRest]
              rw [inductionHypothesis other rest (by omega) (by omega)]
          | none =>
              rw [unary_of_unsigned bound skipped signed, unary_of_unsigned other skipped signed]
              have inside := binary_congr
                (fun shorter fits => inductionHypothesis other shorter (by omega) (by omega))
                (show rest.length < bound + 1 by omega) (show rest.length < other + 1 by omega)
                levels rest (Nat.le_refl _)
              rw [inside]

/-- An expression is read in the same way with all bounds that fit its text. -/
theorem read_eq
    {text : Text}
    {bound count : Nat}
    (deep : text.length < bound)
    (long : text.length < count) :
    Expression.settle (Expression.binary (Expression.unary bound) count levels text) =
      Expression.read text := by
  have agree : ∀ shorter : Text, shorter.length ≤ text.length →
      Expression.unary bound shorter = Expression.unary (text.length + 1) shorter :=
    fun shorter fits => unary_congr bound (text.length + 1) shorter (by omega) (by omega)
  exact congrArg Expression.settle
    (binary_congr agree long (Nat.lt_succ_self _) levels text (Nat.le_refl _))

/-! ## Faults -/

/-- Whether a byte starts an operand: a literal, a group or a sign. -/
def startsOperand (byte : UInt8) : Bool :=
  Byte.isDigit byte || byte == Byte.openParen || (Sign.read? [byte]).isSome

/-- The mark of an operand that is no number is taken away at the end. -/
theorem settle_ne_notNumeric
    (reading : Expression.Reading) :
    (Expression.settle reading).outcome ≠ .error .notNumeric := by
  rw [Expression.settle]
  split
  · simp
  · assumption

theorem evaluate_ne_notNumeric
    (text : Text) :
    Expression.evaluate text ≠ .error .notNumeric := by
  rw [Expression.evaluate]
  split
  · simp
  · exact settle_ne_notNumeric _

/-- An operand that is no number keeps all levels from reading on. -/
theorem binary_of_notNumeric
    {operand : Text → Expression.Reading}
    {text : Text}
    (notNumeric : (operand text).outcome = .error .notNumeric)
    (count tighter : Nat) :
    Expression.binary operand count tighter text = operand text := by
  induction tighter with
  | zero => rfl
  | succ tighter inductionHypothesis =>
      rw [Expression.binary, inductionHypothesis]
      generalize operand text = reading at notNumeric
      obtain ⟨outcome, rest⟩ := reading
      cases notNumeric
      rfl

theorem unary_of_noOperand
    (bound : Nat)
    {text : Text}
    (noOperand : ∀ byte ∈ (Expression.skipBlanks text).head?, startsOperand byte = false) :
    (Expression.unary (bound + 1) text).outcome = .error .notNumeric := by
  cases skipped : Expression.skipBlanks text with
  | nil =>
      rw [Expression.unary, skipped]
      rfl
  | cons byte rest =>
      have noStart := noOperand byte (by rw [skipped]; rfl)
      simp only [startsOperand, Bool.or_eq_false_iff, Option.isSome_eq_false_iff,
        Option.isNone_iff_eq_none] at noStart
      obtain ⟨⟨notDigit, notParen⟩, notSign⟩ := noStart
      have unsigned : Sign.read? (byte :: rest) = none := by
        rw [sign_read?_cons, notSign]
        rfl
      have noLiteral : Expression.literal (byte :: rest) false [] = ([], false, byte :: rest) := by
        rw [literal_cons]
        simp [notDigit]
      rw [unary_of_unsigned bound skipped unsigned, notParen, if_neg (by simp), Expression.element,
        noLiteral]

/-- A text that does not start with an operand counts as one. -/
theorem evaluate_of_noOperand
    {text : Text}
    (notEmpty : text ≠ [])
    (noOperand : ∀ byte ∈ (Expression.skipBlanks text).head?, startsOperand byte = false) :
    Expression.evaluate text = .ok (.int 1) := by
  have notNumeric := unary_of_noOperand text.length noOperand
  rw [Expression.evaluate, if_neg (by simpa using notEmpty), Expression.read,
    binary_of_notNumeric notNumeric, Expression.settle, notNumeric]

/--
For every text: from every position in it, every level of the reader has a reading within bounds,
with no division of integers by zero and no shift by a negative count, and it ends at no earlier
position and not behind the end.  Reading uses up none of its bounds, if they exceed the length of
the text, and so it ends by itself.  The outcome is a number, or a division by zero, a shift by a
negative count or a missing parenthesis; it is the number one where the first byte that is no blank
does not start an operand.
-/
theorem expression_robust
    (text : Text) :
    (∀ bound count tighter head, head ≤ text.length →
      ∃ reading, binary text (unary text bound) count tighter head = some reading ∧
        head ≤ reading.head ∧ reading.head ≤ text.length ∧
        Expression.binary (Expression.unary bound) count tighter (text.drop head) =
          reading.shown text) ∧
    (∀ bound count, text.length < bound → text.length < count →
      Expression.settle (Expression.binary (Expression.unary bound) count levels text) =
        Expression.read text) ∧
    evaluateExpression text = some (Expression.evaluate text) ∧
    (∀ fault, Expression.evaluate text = .error fault →
      fault = .divisionByZero ∨ fault = .negativeShift ∨ fault = .missingParenthesis) ∧
    (text ≠ [] → (∀ byte ∈ (Expression.skipBlanks text).head?, startsOperand byte = false) →
      Expression.evaluate text = .ok (.int 1)) := by
  refine ⟨fun bound count tighter head inside => exists_reading text bound count tighter inside,
    fun bound count deep long => read_eq deep long, evaluateExpression_eq text, ?_,
    evaluate_of_noOperand⟩
  intro fault evaluated
  have notNumeric := evaluate_ne_notNumeric text
  cases fault with
  | notNumeric => exact absurd evaluated notNumeric
  | divisionByZero => exact .inl rfl
  | negativeShift => exact .inr (.inl rfl)
  | missingParenthesis => exact .inr (.inr rfl)

/-- A group in which an operator has no operand, and a text that starts with an operator. -/
theorem expression_robust_malformed :
    (∃ reading, binary (Text.ofString "(2*) +") (unary (Text.ofString "(2*) +") 7) 7 levels 0 =
        some reading ∧
      0 ≤ reading.head ∧ reading.head ≤ (Text.ofString "(2*) +").length ∧
      Expression.binary (Expression.unary 7) 7 levels (Text.ofString "(2*) +") =
        reading.shown (Text.ofString "(2*) +")) ∧
    Expression.evaluate (Text.ofString " *2") = .ok (.int 1) := by
  refine ⟨(expression_robust (Text.ofString "(2*) +")).1 7 7 levels 0 (Nat.zero_le _),
    (expression_robust (Text.ofString " *2")).2.2.2.2 (by decide) fun byte isFirst => ?_⟩
  obtain rfl : 0x2a = byte := Option.some.inj isFirst
  rfl

end LittleScript.Guarded
