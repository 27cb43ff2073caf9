import Mathlib.Algebra.Group.Int.Defs
import Mathlib.Algebra.Group.Nat.Defs
import LittleScript.Expression

namespace LittleScript.Expression

/-!
# Expression trees

The text of an expression stands for a tree.  A tree is written with single spaces around its binary
operators and with parentheses only where the levels of the operators and their grouping to the
left ask for them.  Its value is defined on unbounded integers: a result is wrapped around to 64
bits where an operator can leave their range.
-/

/-- The level at which the reader looks for an operator. -/
def Operator.level : Operator → Nat
  | .logicalOr => 0
  | .logicalAnd => 1
  | .bitOr => 2
  | .bitAnd => 3
  | .equal | .notEqual => 4
  | .less | .lessEqual | .greater | .greaterEqual => 5
  | .shiftLeft | .shiftRight => 6
  | .add | .subtract => 7
  | .multiply | .divide | .quotient | .remainder => 8

/-- How an operator is written. -/
def Operator.symbol : Operator → Text
  | .logicalOr => [Byte.bar, Byte.bar]
  | .logicalAnd => [Byte.ampersand, Byte.ampersand]
  | .bitOr => [Byte.bar]
  | .bitAnd => [Byte.ampersand]
  | .equal => [Byte.equal, Byte.equal]
  | .notEqual => [Byte.bang, Byte.equal]
  | .less => [Byte.less]
  | .lessEqual => [Byte.less, Byte.equal]
  | .greater => [Byte.greater]
  | .greaterEqual => [Byte.greater, Byte.equal]
  | .shiftLeft => [Byte.less, Byte.less]
  | .shiftRight => [Byte.greater, Byte.greater]
  | .add => [Byte.plus]
  | .subtract => [Byte.minus]
  | .multiply => [Byte.star]
  | .divide => [Byte.slash]
  | .quotient => [Byte.backslash]
  | .remainder => [Byte.percent]

/-- How a sign is written. -/
def Sign.symbol : Sign → UInt8
  | .minus => Byte.minus
  | .plus => Byte.plus
  | .complement => Byte.tilde
  | .negation => Byte.bang

/-- An expression on integers: literals in range, and no division into fractions. -/
inductive Tree where
  | literal (number : Fin Integer.limit)
  | signed (sign : Sign) (operand : Tree)
  /-- An expression in parentheses of its own. -/
  | group (inside : Tree)
  | binary (operator : Operator) (isWhole : operator ≠ .divide) (left right : Tree)
  deriving DecidableEq

/-! ## Texts of trees -/

/-- The level of the operator that is applied last; signs, groups and literals bind tightest. -/
def Tree.level : Tree → Nat
  | .binary operator _ _ _ => operator.level
  | _ => levels

/-- A text in parentheses, if they are needed. -/
def enclose (needed : Bool) (text : Text) : Text :=
  if needed then Byte.openParen :: (text ++ [Byte.closeParen]) else text

/-- The text of a tree. -/
def Tree.print : Tree → Text
  | .literal number => Text.ofNat number.val
  | .signed sign operand => sign.symbol :: enclose (operand.level < levels) operand.print
  | .group inside => enclose true inside.print
  | .binary operator _ left right =>
      enclose (left.level < operator.level) left.print ++
        Byte.space :: (operator.symbol ++
          Byte.space :: enclose (right.level < operator.level + 1) right.print)

/-! ## Values of trees -/

/-- The integer of 64 bits in two's complement that agrees with an integer in its low bits. -/
def wrap (value : Int) : Int :=
  value.bmod (2 ^ 64)

/-- One for a proposition that holds and zero for one that does not. -/
def truth (proposition : Prop) [Decidable proposition] : Int :=
  if proposition then 1 else 0

/-- The bits of an integer. -/
def bits (value : Int) : BitVec 64 :=
  BitVec.ofInt 64 value

/-- The result of a binary operator on integers of 64 bits. -/
def Operator.onIntegers (operator : Operator) (isWhole : operator ≠ .divide) (left right : Int) :
    Except Fault Int :=
  match operator, isWhole with
  | .logicalOr, _ => .ok (truth (left ≠ 0 ∨ right ≠ 0))
  | .logicalAnd, _ => .ok (truth (left ≠ 0 ∧ right ≠ 0))
  | .bitOr, _ => .ok (bits left ||| bits right).toInt
  | .bitAnd, _ => .ok (bits left &&& bits right).toInt
  | .equal, _ => .ok (truth (left = right))
  | .notEqual, _ => .ok (truth (left ≠ right))
  | .less, _ => .ok (truth (left < right))
  | .lessEqual, _ => .ok (truth (left ≤ right))
  | .greater, _ => .ok (truth (left > right))
  | .greaterEqual, _ => .ok (truth (left ≥ right))
  | .shiftLeft, _ =>
      if right < 0 then .error .negativeShift else .ok (wrap (left * 2 ^ right.toNat))
  | .shiftRight, _ =>
      if right < 0 then .error .negativeShift else .ok (left / 2 ^ right.toNat)
  | .add, _ => .ok (wrap (left + right))
  | .subtract, _ => .ok (wrap (left - right))
  | .multiply, _ => .ok (wrap (left * right))
  | .quotient, _ =>
      if right = 0 then .error .divisionByZero else .ok (wrap (left.tdiv right))
  | .remainder, _ =>
      if right = 0 then .error .divisionByZero else .ok (left.tmod right)
  | .divide, isWhole => (isWhole rfl).elim

/-- The result of a sign on an integer of 64 bits. -/
def Sign.onInteger : Sign → Int → Int
  | .minus, value => wrap (-value)
  | .plus, value => value
  | .complement, value => -value - 1
  | .negation, value => truth (value = 0)

/-- The value of a tree, or the first fault: operands come before their operator, left before right. -/
def Tree.value : Tree → Except Fault Int
  | .literal number => .ok number.val
  | .signed sign operand => do
      let value ← operand.value
      return sign.onInteger value
  | .group inside => inside.value
  | .binary operator isWhole left right => do
      let first ← left.value
      let second ← right.value
      operator.onIntegers isWhole first second

/-- An operator fails on a zero divisor or on a negative count. -/
theorem Operator.fault_cases
    {operator : Operator}
    {isWhole : operator ≠ .divide}
    {left right : Int}
    {fault : Fault}
    (faulty : operator.onIntegers isWhole left right = .error fault) :
    fault = .divisionByZero ∨ fault = .negativeShift := by
  cases operator with
  | divide =>
      exact (isWhole rfl).elim
  | shiftLeft | shiftRight =>
      rw [onIntegers] at faulty
      split at faulty
      · cases faulty
        exact .inr rfl
      · cases faulty
  | quotient | remainder =>
      rw [onIntegers] at faulty
      split at faulty
      · cases faulty
        exact .inl rfl
      · cases faulty
  | _ =>
      cases faulty

/-- So does a tree. -/
theorem Tree.fault_cases
    {tree : Tree}
    {fault : Fault}
    (faulty : tree.value = .error fault) :
    fault = .divisionByZero ∨ fault = .negativeShift := by
  induction tree with
  | literal number =>
      cases faulty
  | signed sign operand inductionHypothesis =>
      rw [value] at faulty
      cases found : operand.value with
      | error reason =>
          rw [found] at faulty inductionHypothesis
          exact inductionHypothesis faulty
      | ok value =>
          rw [found] at faulty
          cases faulty
  | group inside inductionHypothesis =>
      exact inductionHypothesis faulty
  | binary operator isWhole left right leftCases rightCases =>
      rw [value] at faulty
      cases found : left.value with
      | error reason =>
          rw [found] at faulty leftCases
          exact leftCases faulty
      | ok first =>
          cases otherFound : right.value with
          | error reason =>
              rw [found, otherFound] at faulty
              rw [otherFound] at rightCases
              exact rightCases faulty
          | ok second =>
              rw [found, otherFound] at faulty
              exact Operator.fault_cases faulty

/-! ## The reader's arithmetic -/

/-- `Agrees found expected`: the same fault, or the number of 64 bits that stands for the integer. -/
inductive Agrees : Except Fault Number → Except Fault Int → Prop where
  | fault (reason : Fault) : Agrees (.error reason) (.error reason)
  | value (number : Int64) : Agrees (.ok (.int number)) (.ok number.toInt)

theorem Agrees.of_toInt
    {number : Int64}
    {integer : Int}
    (isInteger : number.toInt = integer) :
    Agrees (.ok (.int number)) (.ok integer) := by
  subst isInteger
  exact .value number

theorem Agrees.of_truth
    {flag : Bool}
    {proposition : Prop}
    [Decidable proposition]
    (holds : flag = true ↔ proposition) :
    Agrees (.ok (.ofBool flag)) (.ok (truth proposition)) := by
  apply Agrees.of_toInt
  cases flag with
  | true =>
      rw [truth, if_pos (holds.mp rfl)]
      rfl
  | false =>
      rw [truth, if_neg fun holding => Bool.false_ne_true (holds.mpr holding)]
      rfl

theorem bits_toInt
    (number : Int64) :
    bits number.toInt = number.toBitVec := by
  rw [bits, ← Int64.toInt_toBitVec, BitVec.ofInt_toInt]

theorem isZero_int
    (number : Int64) :
    (Number.int number).isZero = decide (number.toInt = 0) := by
  rw [Bool.eq_iff_iff, Number.isZero, beq_iff_eq, ← Int64.toInt_inj, Int64.toInt_zero,
    decide_eq_true_iff]

theorem order_int
    (left right : Int64) :
    order (.int left) (.int right) = compare left.toInt right.toInt := by
  simp only [order, Int64.lt_iff_toInt_lt, compare, compareOfLessAndEq]
  by_cases isLess : left.toInt < right.toInt
  · rw [if_pos isLess, if_pos isLess]
  · by_cases isGreater : right.toInt < left.toInt
    · have different : left.toInt ≠ right.toInt := by omega
      rw [if_neg isLess, if_neg isLess, if_pos isGreater, if_neg different]
    · have same : left.toInt = right.toInt := by omega
      rw [if_neg isLess, if_neg isLess, if_neg isGreater, if_pos same]

/-- The count of a shift by fewer than 64 places. -/
theorem toNat_smod
    {count : Int64}
    (isCount : 0 ≤ count.toInt)
    (isSmall : count.toInt < 64) :
    (count.toBitVec.smod 64).toNat = count.toInt.toNat := by
  have signed : (count.toBitVec.smod 64).toInt = count.toInt := by
    rw [BitVec.toInt_smod, Int64.toInt_toBitVec]
    exact Int.fmod_eq_of_lt isCount isSmall
  have positive := BitVec.toInt_eq_toNat_cond (count.toBitVec.smod 64)
  omega

theorem toInt_shiftLeft
    {number count : Int64}
    (isCount : 0 ≤ count.toInt) :
    (Integer.shiftLeft number count).toInt = wrap (number.toInt * 2 ^ count.toInt.toNat) := by
  rw [Integer.shiftLeft, wrap]
  split
  · rename_i isLarge
    obtain ⟨more, isMore⟩ : ∃ more, count.toInt.toNat = more + 64 := ⟨count.toInt.toNat - 64, by omega⟩
    rw [isMore, Int.pow_add, ← Int.mul_assoc]
    exact (Int.mul_bmod_left _ (2 ^ 64)).symm
  · rename_i isSmall
    rw [← Int64.toInt_toBitVec, Int64.toBitVec_shiftLeft, BitVec.shiftLeft_eq',
      toNat_smod isCount (by omega), BitVec.toInt_shiftLeft, ← Int64.toInt_toBitVec number,
      BitVec.toInt_eq_toNat_bmod, Int.bmod_mul_bmod, Nat.shiftLeft_eq]
    simp

theorem toInt_shiftRight
    {number count : Int64}
    (isCount : 0 ≤ count.toInt) :
    (Integer.shiftRight number count).toInt = number.toInt / 2 ^ count.toInt.toNat := by
  rw [Integer.shiftRight]
  split
  · rename_i isLarge
    have large : (2 : Int) ^ 64 ≤ 2 ^ count.toInt.toNat := by
      exact_mod_cast Nat.pow_le_pow_right (by decide) (show 64 ≤ count.toInt.toNat by omega)
    have least := number.le_toInt
    have greatest := number.toInt_lt
    by_cases negative : number < 0
    · have below := Int64.lt_iff_toInt_lt.mp negative
      rw [Int64.toInt_zero] at below
      have shifted : (number.toInt + 2 ^ count.toInt.toNat) / 2 ^ count.toInt.toNat = 0 :=
        Int.ediv_eq_zero_of_lt (by omega) (by omega)
      rw [Int.add_ediv_of_dvd_right (Int.dvd_refl _), Int.ediv_self (by omega)] at shifted
      rw [if_pos negative]
      exact (show number.toInt / 2 ^ count.toInt.toNat = -1 by omega).symm
    · have above := mt Int64.lt_iff_toInt_lt.mpr negative
      rw [Int64.toInt_zero] at above
      rw [if_neg negative, Int.ediv_eq_zero_of_lt (by omega) (by omega)]
      rfl
  · rename_i isSmall
    rw [← Int64.toInt_toBitVec, Int64.toBitVec_shiftRight, BitVec.sshiftRight_eq',
      toNat_smod isCount (by omega), BitVec.toInt_sshiftRight, Int.shiftRight_eq_div_pow,
      Int64.toInt_toBitVec]
    simp

/-- The reader's operators are those on integers. -/
theorem Operator.apply_agrees
    (operator : Operator)
    (isWhole : operator ≠ .divide)
    (left right : Int64) :
    Agrees (operator.apply (.int left) (.int right))
      (operator.onIntegers isWhole left.toInt right.toInt) := by
  have isNegative : right < 0 ↔ right.toInt < 0 := by
    rw [Int64.lt_iff_toInt_lt, Int64.toInt_zero]
  cases operator with
  | logicalOr =>
      exact .of_truth (by simp [isZero_int])
  | logicalAnd =>
      exact .of_truth (by simp [isZero_int])
  | bitOr =>
      apply Agrees.of_toInt
      rw [bits_toInt, bits_toInt, ← Int64.toBitVec_or, Int64.toInt_toBitVec]
      rfl
  | bitAnd =>
      apply Agrees.of_toInt
      rw [bits_toInt, bits_toInt, ← Int64.toBitVec_and, Int64.toInt_toBitVec]
      rfl
  | equal =>
      exact .of_truth (by simp [same, Int64.toInt_inj])
  | notEqual =>
      exact .of_truth (by simp [same, Int64.toInt_inj])
  | less =>
      exact .of_truth (by simp [order_int, Int.compare_eq_lt])
  | lessEqual =>
      exact .of_truth (by simp [order_int, Int.compare_ne_gt])
  | greater =>
      exact .of_truth (by simp [order_int, Int.compare_eq_gt])
  | greaterEqual =>
      exact .of_truth (by simp [order_int, Int.compare_ne_lt])
  | shiftLeft =>
      by_cases negative : right.toInt < 0
      · simp only [apply, onIntegers, Number.toInt, isNegative, negative, if_true]
        exact .fault _
      · simp only [apply, onIntegers, Number.toInt, isNegative, negative, if_false]
        exact .of_toInt (toInt_shiftLeft (Int.not_lt.mp negative))
  | shiftRight =>
      by_cases negative : right.toInt < 0
      · simp only [apply, onIntegers, Number.toInt, isNegative, negative, if_true]
        exact .fault _
      · simp only [apply, onIntegers, Number.toInt, isNegative, negative, if_false]
        exact .of_toInt (toInt_shiftRight (Int.not_lt.mp negative))
  | add =>
      exact .of_toInt (Int64.toInt_add left right)
  | subtract =>
      exact .of_toInt (Int64.toInt_sub left right)
  | multiply =>
      exact .of_toInt (Int64.toInt_mul left right)
  | divide =>
      exact (isWhole rfl).elim
  | quotient =>
      by_cases zero : right.toInt = 0
      · simp only [apply, onIntegers, isZero_int, zero, decide_true, if_true]
        exact .fault _
      · simp only [apply, onIntegers, isZero_int, zero, decide_false, if_false]
        exact .of_toInt (Int64.toInt_div left right)
  | remainder =>
      by_cases zero : right.toInt = 0
      · simp only [apply, onIntegers, isZero_int, zero, decide_true, if_true]
        exact .fault _
      · simp only [apply, onIntegers, isZero_int, zero, decide_false, if_false]
        exact .of_toInt (Int64.toInt_mod left right)

/-- The reader's signs are those on integers. -/
theorem Sign.apply_agrees
    (sign : Sign)
    (operand : Int64) :
    Agrees (.ok (sign.apply (.int operand))) (.ok (sign.onInteger operand.toInt)) := by
  have least := operand.le_toInt
  have greatest := operand.toInt_lt
  cases sign with
  | minus =>
      exact .of_toInt (Int64.toInt_neg operand)
  | plus =>
      exact .value operand
  | complement =>
      apply Agrees.of_toInt
      rw [Number.toInt, Int64.toInt_not]
      exact Int.bmod_eq_of_le (by omega) (by omega)
  | negation =>
      exact .of_truth (by simp [← Int64.toInt_inj])

/-- What the reader makes of a tree. -/
def Tree.evaluate : Tree → Except Fault Number
  | .literal number => .ok (.int (Int64.ofInt number.val))
  | .signed sign operand => do
      let value ← operand.evaluate
      return sign.apply value
  | .group inside => inside.evaluate
  | .binary operator _ left right => do
      let first ← left.evaluate
      let second ← right.evaluate
      operator.apply first second

/-- The reader makes the value of a tree of it. -/
theorem Tree.evaluate_agrees
    (tree : Tree) :
    Agrees tree.evaluate tree.value := by
  induction tree with
  | literal number =>
      have small : number.val < 2 ^ 63 := number.isLt
      exact .of_toInt (Int64.toInt_ofInt_of_le (by omega) (by omega))
  | signed sign operand inductionHypothesis =>
      rw [evaluate, value]
      generalize operand.evaluate = found, operand.value = expected at inductionHypothesis
      cases inductionHypothesis with
      | fault reason => exact .fault reason
      | value number => exact sign.apply_agrees number
  | group inside inductionHypothesis =>
      exact inductionHypothesis
  | binary operator isWhole left right leftAgrees rightAgrees =>
      rw [evaluate, value]
      generalize left.evaluate = found, left.value = expected at leftAgrees
      generalize right.evaluate = otherFound, right.value = otherExpected at rightAgrees
      cases leftAgrees with
      | fault reason => exact .fault reason
      | value first =>
          cases rightAgrees with
          | fault reason => exact .fault reason
          | value second => exact operator.apply_agrees isWhole first second

/-- Every operand of a tree is a number. -/
theorem Tree.evaluate_ne_notNumeric
    (tree : Tree) :
    tree.evaluate ≠ .error .notNumeric := by
  intro faulty
  have agrees := tree.evaluate_agrees
  rw [faulty] at agrees
  generalize isValue : tree.value = expected at agrees
  cases agrees
  rcases Tree.fault_cases isValue with isDivision | isShift
  · cases isDivision
  · cases isShift

end LittleScript.Expression
