import LittleScript.Number

namespace LittleScript.Expression

/-!
# Arithmetic expressions

A text is evaluated while it is read.  Nine levels of left-associative binary operators bind ever
tighter, then come the signs and complements, then parentheses and literals.  An operand that is no
number makes the innermost group around it count as one.  Text after the expression is ignored.
-/

/-- Why an expression has no value. -/
inductive Fault where
  /-- An operand is not a number; no expression as a whole ends with this. -/
  | notNumeric
  | divisionByZero
  | negativeShift
  | missingParenthesis
  deriving Repr, DecidableEq

/-- The binary operators. -/
inductive Operator where
  | logicalOr
  | logicalAnd
  | bitOr
  | bitAnd
  | equal
  | notEqual
  | less
  | lessEqual
  | greater
  | greaterEqual
  | shiftLeft
  | shiftRight
  | add
  | subtract
  | multiply
  | divide
  | quotient
  | remainder
  deriving Repr, DecidableEq

/-- The operators in front of an operand. -/
inductive Sign where
  | minus
  | plus
  | complement
  | negation
  deriving Repr, DecidableEq

/-- The number of levels of binary operators. -/
def levels : Nat := 9

/-- The operator of a level at the front of a text, with the text after it. -/
def Operator.read? (level : Nat) (text : Text) : Option (Operator × Text) :=
  match level, text with
  | 0, Byte.bar :: Byte.bar :: rest => some (.logicalOr, rest)
  | 1, Byte.ampersand :: Byte.ampersand :: rest => some (.logicalAnd, rest)
  | 2, Byte.bar :: rest => if rest.head? == some Byte.bar then none else some (.bitOr, rest)
  | 3, Byte.ampersand :: rest =>
      if rest.head? == some Byte.ampersand then none else some (.bitAnd, rest)
  | 4, Byte.equal :: Byte.equal :: rest => some (.equal, rest)
  | 4, Byte.bang :: Byte.equal :: rest => some (.notEqual, rest)
  | 5, Byte.less :: Byte.less :: _ => none
  | 5, Byte.less :: Byte.equal :: rest => some (.lessEqual, rest)
  | 5, Byte.less :: rest => some (.less, rest)
  | 5, Byte.greater :: Byte.greater :: _ => none
  | 5, Byte.greater :: Byte.equal :: rest => some (.greaterEqual, rest)
  | 5, Byte.greater :: rest => some (.greater, rest)
  | 6, Byte.less :: Byte.less :: rest => some (.shiftLeft, rest)
  | 6, Byte.greater :: Byte.greater :: rest => some (.shiftRight, rest)
  | 7, Byte.plus :: rest => some (.add, rest)
  | 7, Byte.minus :: rest => some (.subtract, rest)
  | 8, Byte.star :: rest => some (.multiply, rest)
  | 8, Byte.slash :: rest => some (.divide, rest)
  | 8, Byte.backslash :: rest => some (.quotient, rest)
  | 8, Byte.percent :: rest => some (.remainder, rest)
  | _, _ => none

/-- The sign at the front of a text, with the text after it. -/
def Sign.read? (text : Text) : Option (Sign × Text) :=
  match text with
  | Byte.minus :: rest => some (.minus, rest)
  | Byte.plus :: rest => some (.plus, rest)
  | Byte.tilde :: rest => some (.complement, rest)
  | Byte.bang :: rest => some (.negation, rest)
  | _ => none

/-- Apply one operation to integers, another when an operand is a binary64 number. -/
def mixed (onInts : Int64 → Int64 → Number) (onFloats : Float → Float → Number) :
    Number → Number → Number
  | .int left, .int right => onInts left right
  | left, right => onFloats left.toFloat right.toFloat

/-- How two numbers compare; a value that is not a number equals everything here. -/
def order (left right : Number) : Ordering :=
  match left, right with
  | .int left, .int right => if left < right then .lt else if right < left then .gt else .eq
  | left, right =>
      if left.toFloat < right.toFloat then .lt
      else if right.toFloat < left.toFloat then .gt
      else .eq

/-- Whether two numbers are equal; a value that is not a number differs from everything. -/
def same (left right : Number) : Bool :=
  match left, right with
  | .int left, .int right => left == right
  | left, right => left.toFloat == right.toFloat

/-- The result of a binary operator. -/
def Operator.apply (operator : Operator) (left right : Number) : Except Fault Number :=
  match operator with
  | .logicalOr => .ok (.ofBool (!left.isZero || !right.isZero))
  | .logicalAnd => .ok (.ofBool (!left.isZero && !right.isZero))
  | .bitOr => .ok (.int (left.toInt ||| right.toInt))
  | .bitAnd => .ok (.int (left.toInt &&& right.toInt))
  | .equal => .ok (.ofBool (same left right))
  | .notEqual => .ok (.ofBool (!same left right))
  | .less => .ok (.ofBool (order left right == .lt))
  | .lessEqual => .ok (.ofBool (order left right != .gt))
  | .greater => .ok (.ofBool (order left right == .gt))
  | .greaterEqual => .ok (.ofBool (order left right != .lt))
  | .shiftLeft =>
      if right.toInt < 0 then .error .negativeShift
      else .ok (.int (Integer.shiftLeft left.toInt right.toInt))
  | .shiftRight =>
      if right.toInt < 0 then .error .negativeShift
      else .ok (.int (Integer.shiftRight left.toInt right.toInt))
  | .add => .ok (mixed (fun a b => .int (a + b)) (fun a b => .float (a + b)) left right)
  | .subtract => .ok (mixed (fun a b => .int (a - b)) (fun a b => .float (a - b)) left right)
  | .multiply => .ok (mixed (fun a b => .int (a * b)) (fun a b => .float (a * b)) left right)
  | .divide =>
      if right.isZero then .error .divisionByZero
      else .ok (.float (left.toFloat / right.toFloat))
  | .quotient =>
      if right.isZero then .error .divisionByZero
      else .ok (mixed (fun a b => .int (a / b)) (fun a b => .int (Binary64.truncate (a / b)))
        left right)
  | .remainder =>
      if right.isZero then .error .divisionByZero
      else .ok (mixed (fun a b => .int (a % b)) (fun a b => .float (Binary64.remainder a b))
        left right)

/-- The result of a sign. -/
def Sign.apply (sign : Sign) (operand : Number) : Number :=
  match sign, operand with
  | .minus, .int value => .int (-value)
  | .minus, .float value => .float (-value)
  | .plus, _ => operand
  | .complement, _ => .int (~~~operand.toInt)
  | .negation, .int value => .ofBool (value == 0)
  | .negation, .float value => .float (if value == 0 then 1 else 0)

/-- A value or fault, and the text after what was read. -/
structure Reading where
  outcome : Except Fault Number
  rest : Text

/-- Drop blanks from the front of a text. -/
def skipBlanks (text : Text) : Text :=
  text.dropWhile Byte.isSpace

/-- Split off a literal: digits with at most one point, which is not the first byte. -/
def literal : Text → Bool → Text → Text × Bool × Text
  | Byte.dot :: rest, false, [] => ([], false, Byte.dot :: rest)
  | Byte.dot :: rest, false, digits => literal rest true (Byte.dot :: digits)
  | byte :: rest, sawPoint, digits =>
      if Byte.isDigit byte then literal rest sawPoint (byte :: digits)
      else (digits.reverse, sawPoint, byte :: rest)
  | [], sawPoint, digits => (digits.reverse, sawPoint, [])

/-- Read a literal.  An integer out of range becomes a binary64 number, possibly infinite. -/
def element (text : Text) : Reading :=
  match literal text false [] with
  | ([], _, _) => ⟨.error .notNumeric, text⟩
  | (digits, true, rest) =>
      match Binary64.read? digits with
      | some value => ⟨.ok (.float value), rest⟩
      | none => ⟨.error .notNumeric, rest⟩
  | (digits, false, rest) =>
      match Integer.read? digits with
      | some value => ⟨.ok (.int value), rest⟩
      | none =>
          match Binary64.readRounded? digits with
          | some rounded => ⟨.ok (.float rounded.value), rest⟩
          | none => ⟨.ok (.float 0), rest⟩

/-- Continue a left-associative chain of one level after its first operand. -/
def chain (level : Nat) (operand : Text → Reading) : Nat → Number → Text → Reading
  | 0, left, text => ⟨.ok left, text⟩
  | bound + 1, left, text =>
      match Operator.read? level (skipBlanks text) with
      | none => ⟨.ok left, skipBlanks text⟩
      | some (operator, afterOperator) =>
          match operand afterOperator with
          | ⟨.error fault, rest⟩ => ⟨.error fault, rest⟩
          | ⟨.ok right, rest⟩ =>
              match operator.apply left right with
              | .error fault => ⟨.error fault, rest⟩
              | .ok result => chain level operand bound result rest

/-- Read an expression of the last `tighter` levels, with at most `bound` operators a level. -/
def binary (unary : Text → Reading) (bound : Nat) : Nat → Text → Reading
  | 0, text => unary text
  | tighter + 1, text =>
      match binary unary bound tighter text with
      | ⟨.error fault, rest⟩ => ⟨.error fault, rest⟩
      | ⟨.ok left, rest⟩ =>
          chain (levels - (tighter + 1)) (binary unary bound tighter) bound left rest

/-- A group whose operand is no number counts as one. -/
def settle (reading : Reading) : Reading :=
  match reading.outcome with
  | .error .notNumeric => ⟨.ok (.int 1), reading.rest⟩
  | _ => reading

/--
Read signs, then a group in parentheses or a literal.  Signs and groups each take a byte, so a
bound above the length of the text is never used up.
-/
def unary : Nat → Text → Reading
  | 0, text => ⟨.error .notNumeric, text⟩
  | bound + 1, text =>
      match Sign.read? (skipBlanks text) with
      | some (sign, rest) =>
          match unary bound rest with
          | ⟨.ok operand, after⟩ => ⟨.ok (sign.apply operand), after⟩
          | faulty => faulty
      | none =>
          match skipBlanks text with
          | Byte.openParen :: inside =>
              match settle (binary (unary bound) (bound + 1) levels inside) with
              | ⟨.error fault, rest⟩ => ⟨.error fault, rest⟩
              | ⟨.ok value, rest⟩ =>
                  match skipBlanks rest with
                  | Byte.closeParen :: after => ⟨.ok value, after⟩
                  | other => ⟨.error .missingParenthesis, other⟩
          | operand => element operand

/-- Read a whole expression from the front of a text. -/
def read (text : Text) : Reading :=
  settle (binary (unary (text.length + 1)) (text.length + 1) levels text)

/-- The value of an expression; the empty one is zero. -/
def evaluate (text : Text) : Except Fault Number :=
  if text.isEmpty then .ok (.int 0) else (read text).outcome

end LittleScript.Expression
