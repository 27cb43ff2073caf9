import LittleScript.Number.Binary64

namespace LittleScript.Binary64

/-!
# Reading floating-point numbers

A number is a decimal or hexadecimal literal with an optional sign, or the name of an infinity or
of the value that is not a number.  Underscores may stand between digits, and between the
hexadecimal mark and a digit.  Reading is exact before the one final rounding.
-/

/-- Value of a hexadecimal digit. -/
def hexDigit? (byte : UInt8) : Option Nat :=
  if Byte.isDigit byte then some (byte.toNat - 48)
  else
    let lower := Byte.toLower byte
    if 0x61 ≤ lower && lower ≤ 0x66 then some (lower.toNat - 87) else none

/-- Value of a digit in the chosen base. -/
def digit? (hexadecimal : Bool) (byte : UInt8) : Option Nat :=
  if hexadecimal then hexDigit? byte
  else if Byte.isDigit byte then some (byte.toNat - 48) else none

/-- What the digits of a literal have spelled so far. -/
structure Mantissa where
  number : Nat := 0
  fractionDigits : Nat := 0
  significantDigits : Nat := 0
  sawPoint : Bool := false
  sawDigit : Bool := false
  deriving Repr, DecidableEq

/-- Take one more digit into a mantissa. -/
def Mantissa.push (mantissa : Mantissa) (base digit : Nat) : Mantissa :=
  { mantissa with
    number := mantissa.number * base + digit
    fractionDigits := mantissa.fractionDigits + (if mantissa.sawPoint then 1 else 0)
    significantDigits :=
      if mantissa.number = 0 && digit = 0 then 0 else mantissa.significantDigits + 1
    sawDigit := true }

/-- Read digits, underscores and at most one point. -/
def readMantissa (hexadecimal : Bool) : Text → Mantissa → Mantissa × Text
  | [], mantissa => (mantissa, [])
  | byte :: rest, mantissa =>
      if byte == Byte.underscore then readMantissa hexadecimal rest mantissa
      else if byte == Byte.dot then
        if mantissa.sawPoint then (mantissa, byte :: rest)
        else readMantissa hexadecimal rest { mantissa with sawPoint := true }
      else
        match digit? hexadecimal byte with
        | some digit =>
            readMantissa hexadecimal rest (mantissa.push (if hexadecimal then 16 else 10) digit)
        | none => (mantissa, byte :: rest)

/-- Read the digits of an exponent, which stops growing once it is out of every range. -/
def readExponentDigits : Text → Nat → Nat × Text
  | [], exponent => (exponent, [])
  | byte :: rest, exponent =>
      if byte == Byte.underscore then readExponentDigits rest exponent
      else if Byte.isDigit byte then
        readExponentDigits rest
          (if exponent < 10000 then exponent * 10 + (byte.toNat - 48) else exponent)
      else (exponent, byte :: rest)

/-- Read the sign and digits after an exponent mark; at least one digit must follow the sign. -/
def readExponent? (text : Text) : Option (Int × Text) :=
  let negative := text.head? == some Byte.minus
  let digits := if negative || text.head? == some Byte.plus then text.tail else text
  match digits with
  | byte :: _ =>
      if Byte.isDigit byte then
        let (exponent, rest) := readExponentDigits digits 0
        some (if negative then -(exponent : Int) else exponent, rest)
      else none
  | [] => none

/-- Whether an underscore was the last byte seen, a digit, the beginning, or something else. -/
inductive Neighbour where
  | beginning
  | digit
  | underscore
  | other
  deriving Repr, DecidableEq

/-- Whether every underscore stands between two digits, after what was seen last. -/
def underscoresFit (hexadecimal : Bool) : Neighbour → Text → Bool
  | last, [] => last != .underscore
  | last, byte :: rest =>
      if (digit? hexadecimal byte).isSome then underscoresFit hexadecimal .digit rest
      else if byte == Byte.underscore then
        last == .digit && underscoresFit hexadecimal .underscore rest
      else last != .underscore && underscoresFit hexadecimal .other rest

/-- Whether the underscores of an unsigned literal stand where they may. -/
def underscoresAllowed (unsigned : Text) : Bool :=
  match unsigned with
  | Byte.zero :: mark :: rest =>
      let lower := Byte.toLower mark
      if lower == 0x78 then underscoresFit true .digit rest
      else if lower == 0x62 || lower == 0x6f then underscoresFit false .digit rest
      else underscoresFit false .beginning unsigned
  | _ => underscoresFit false .beginning unsigned

/-- The number a decimal mantissa and exponent name. -/
def roundDecimal (negative : Bool) (mantissa : Mantissa) (exponent : Int) : Rounded :=
  let power := exponent - mantissa.fractionDigits
  let magnitude := power + mantissa.significantDigits
  if mantissa.number = 0 || magnitude < -330 then ⟨negative, 0, true⟩
  else if magnitude > 310 then ⟨negative, infinityBits, false⟩
  else round negative (mantissa.number * Nat.pow 10 power.toNat) (Nat.pow 10 (-power).toNat)

/-- The number a hexadecimal mantissa and binary exponent name. -/
def roundHexadecimal (negative : Bool) (mantissa : Mantissa) (exponent : Int) : Rounded :=
  let power := exponent - 4 * mantissa.fractionDigits
  let magnitude := power + mantissa.number.log2
  if mantissa.number = 0 || magnitude < -1100 then ⟨negative, 0, true⟩
  else if magnitude > 1030 then ⟨negative, infinityBits, false⟩
  else round negative (mantissa.number * Nat.pow 2 power.toNat) (Nat.pow 2 (-power).toNat)

/-- Read an unsigned literal that ends with the text. -/
def readLiteral? (negative : Bool) (unsigned : Text) : Option Rounded :=
  let hexadecimal :=
    match unsigned with
    | Byte.zero :: mark :: _ :: _ => Byte.toLower mark == 0x78
    | _ => false
  let digits := if hexadecimal then unsigned.drop 2 else unsigned
  let (mantissa, rest) := readMantissa hexadecimal digits {}
  let allowed := !unsigned.contains Byte.underscore || underscoresAllowed unsigned
  if !mantissa.sawDigit || !allowed then none
  else
    match rest with
    | [] => if hexadecimal then none else some (roundDecimal negative mantissa 0)
    | mark :: exponentText =>
        if Byte.toLower mark == (if hexadecimal then 0x70 else 0x65) then
          match readExponent? exponentText with
          | some (exponent, []) =>
              some (if hexadecimal then roundHexadecimal negative mantissa exponent
                else roundDecimal negative mantissa exponent)
          | _ => none
        else none

/-- The bits of the value that is not a number. -/
def nonNumberBits : Nat := 0x7ff8000000000001

/-- Read a named value: an infinity with an optional sign, or an unsigned non-number. -/
def readNamed? (text : Text) : Option Rounded :=
  let lower := text.map Byte.toLower
  let named (name : String) : Bool := lower == Text.ofString name
  if named "inf" || named "+inf" || named "infinity" || named "+infinity" then
    some ⟨false, infinityBits, true⟩
  else if named "-inf" || named "-infinity" then some ⟨true, infinityBits, true⟩
  else if named "nan" then some ⟨false, nonNumberBits, true⟩
  else none

/-- Read a number; a literal out of range is reported as such with its infinity. -/
def readRounded? (text : Text) : Option Rounded :=
  match readNamed? text with
  | some value => some value
  | none =>
      match text with
      | Byte.minus :: unsigned => readLiteral? true unsigned
      | Byte.plus :: unsigned => readLiteral? false unsigned
      | unsigned => readLiteral? false unsigned

/-- Read a number in range, by its sign and its bits. -/
def readInRange? (text : Text) : Option Rounded :=
  (readRounded? text).filter Rounded.inRange

/-- Read a number in range. -/
def read? (text : Text) : Option Float :=
  (readInRange? text).map Rounded.value

end LittleScript.Binary64
