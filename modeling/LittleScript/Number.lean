import LittleScript.Number.Integer
import LittleScript.Number.Literal
import LittleScript.Number.Shortest
import LittleScript.Text.Trim

namespace LittleScript

/-!
# Numbers

A number is a 64-bit integer or a binary64 number.  Texts are read as numbers on demand, after
blanks at both ends are dropped.
-/

/-- An operand of arithmetic. -/
inductive Number where
  | int (value : Int64)
  | float (value : Float)

namespace Number

/-- One for true and zero for false. -/
def ofBool (truth : Bool) : Number :=
  .int (if truth then 1 else 0)

/-- The number as a binary64 number, rounded if it must be. -/
def toFloat : Number → Float
  | .int value => value.toFloat
  | .float value => value

/-- The number as an integer, truncated toward zero. -/
def toInt : Number → Int64
  | .int value => value
  | .float value => Binary64.truncate value

/-- Whether the number equals zero. -/
def isZero : Number → Bool
  | .int value => value == 0
  | .float value => value == 0

/-- The text of a number. -/
def text : Number → Text
  | .int value => Integer.text value
  | .float value => Binary64.text value

end Number

namespace Text

/-- The text read as an integer; a text that only reads as a fraction is truncated toward zero. -/
def toInt? (text : Text) : Option Int64 :=
  let stripped := text.strip
  match Integer.read? stripped with
  | some value => some value
  | none => (Binary64.readInRange? stripped).map Binary64.Rounded.truncate

/-- The text read as an integer, or a default. -/
def toIntD (text : Text) (default : Int64) : Int64 :=
  text.toInt?.getD default

/-- The text read as a binary64 number. -/
def toFloat? (text : Text) : Option Float :=
  Binary64.read? text.strip

/-- The text read as a number; zero when it is none. -/
def toNumber (text : Text) : Number :=
  let stripped := text.strip
  match Integer.read? stripped with
  | some value => .int value
  | none =>
      match Binary64.read? stripped with
      | some value => .float value
      | none => .int 0

/-- Whether a text consists of zeros and at most `points` points. -/
def isZeroText : Text → Nat → Bool
  | [], _ => true
  | Byte.zero :: rest, points => isZeroText rest points
  | Byte.dot :: rest, points + 1 => isZeroText rest points
  | _, _ => false

/-- False for the empty text and for zeros with at most one point, true for every other text. -/
def truth (text : Text) : Bool :=
  !isZeroText text 1

end Text

end LittleScript
