import LittleScript.Number

namespace LittleScript.Text

/-!
# Building a text piece by piece
-/

/-- Something to append to a text. -/
inductive Piece where
  | bytes (text : Text)
  /-- The byte with the low eight bits of the integer that a text reads as. -/
  | byte (code : Text)
  | integer (number : Text)
  | fraction (number : Text)
  | truth (text : Text)
  /-- The text itself, once more. -/
  | itself
  deriving Repr, DecidableEq

/-- Append a piece; what does not read as a number counts as zero. -/
def append (text : Text) : Piece → Text
  | .bytes more => text ++ more
  | .byte code => text ++ [UInt8.ofNat ((code.toIntD 0).toInt % 256).toNat]
  | .integer number => text ++ Integer.text (number.toIntD 0)
  | .fraction number => text ++ Binary64.text (number.toFloat?.getD 0)
  | .truth other => text ++ ofBool other.truth
  | .itself => text ++ text

/-- The texts after each piece, starting from a text. -/
def buildSteps : Text → List Piece → List Text
  | _, [] => []
  | text, piece :: rest => text.append piece :: buildSteps (text.append piece) rest

end LittleScript.Text
