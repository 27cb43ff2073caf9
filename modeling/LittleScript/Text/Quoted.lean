import LittleScript.Text.Printable
import LittleScript.Text.Trim

namespace LittleScript.Text

/-!
# Quoted text

A text between double quotes in which everything that does not print is written as an escape.
Bytes that belong to no character are written one by one.
-/

/-- A lower-case hexadecimal digit. -/
def hexDigit (digit : Nat) : UInt8 :=
  UInt8.ofNat (if digit < 10 then 48 + digit else 87 + digit)

/-- The lowest `width` hexadecimal digits of a number. -/
def ofHex : Nat → Nat → Text
  | 0, _ => []
  | width + 1, number => ofHex width (number / 16) ++ [hexDigit (number % 16)]

/-- The letter of a short escape. -/
def escapeLetter? (code : Nat) : Option UInt8 :=
  match code with
  | 0x07 => some 0x61
  | 0x08 => some 0x62
  | 0x0c => some 0x66
  | 0x0a => some 0x6e
  | 0x0d => some 0x72
  | 0x09 => some 0x74
  | 0x0b => some 0x76
  | 0x22 => some Byte.doubleQuote
  | 0x5c => some Byte.backslash
  | _ => none

/-- One character inside quotes, given with the bytes it was read from. -/
def quoteRune (rune : Rune) (bytes : Text) : Text :=
  match escapeLetter? rune.code with
  | some letter => [Byte.backslash, letter]
  | none =>
      if !rune.isWellFormed then
        Byte.backslash :: 0x78 :: ofHex 2 (bytes.headD 0).toNat
      else if rune.isPrintable then bytes
      else if rune.code < 0x20 || rune.code == 0x7f then
        Byte.backslash :: 0x78 :: ofHex 2 rune.code
      else if rune.code < 0x10000 then Byte.backslash :: 0x75 :: ofHex 4 rune.code
      else Byte.backslash :: 0x55 :: ofHex 8 rune.code

/-- A text between double quotes. -/
def quoted (text : Text) : Text :=
  let inside := (withBytes (Rune.decode text) text []).flatMap fun (rune, bytes) =>
    quoteRune rune bytes
  Byte.doubleQuote :: (inside ++ [Byte.doubleQuote])

end LittleScript.Text
