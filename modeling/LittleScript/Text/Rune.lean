import LittleScript.Text

namespace LittleScript

/-!
# Characters inside byte strings

UTF-8 read from bytes that need not be valid: a byte that starts no well-formed sequence counts as
one replacement character.  A text can be read from its front and from its back.
-/

/-- A decoded character: its code point and the number of bytes it was read from. -/
structure Rune where
  code : Nat
  size : Nat
  deriving Repr, DecidableEq

namespace Rune

/-- The character that stands for a byte outside every well-formed sequence. -/
def replacement : Rune := ⟨0xfffd, 1⟩

/-- A continuation byte of a multi-byte sequence. -/
def isContinuation (byte : UInt8) : Bool :=
  0x80 ≤ byte && byte ≤ 0xbf

/-- The low six bits that a continuation byte carries. -/
def payload (byte : UInt8) : Nat :=
  byte.toNat % 64

/-- The least and greatest second byte that may follow the first byte of a long sequence. -/
def secondRange (first : UInt8) : UInt8 × UInt8 :=
  if first == 0xe0 then (0xa0, 0xbf)
  else if first == 0xed then (0x80, 0x9f)
  else if first == 0xf0 then (0x90, 0xbf)
  else if first == 0xf4 then (0x80, 0x8f)
  else (0x80, 0xbf)

/-- Whether `second` may follow `first`. -/
def follows (first second : UInt8) : Bool :=
  (secondRange first).1 ≤ second && second ≤ (secondRange first).2

/-- The first character of a text with its size. -/
def first? : Text → Option Rune
  | [] => none
  | lead :: rest =>
      if lead < 0x80 then some ⟨lead.toNat, 1⟩
      else if 0xc2 ≤ lead && lead ≤ 0xdf then
        match rest with
        | second :: _ =>
            if isContinuation second then
              some ⟨lead.toNat % 32 * 64 + payload second, 2⟩
            else some replacement
        | [] => some replacement
      else if 0xe0 ≤ lead && lead ≤ 0xef then
        match rest with
        | second :: third :: _ =>
            if follows lead second && isContinuation third then
              some ⟨(lead.toNat % 16 * 64 + payload second) * 64 + payload third, 3⟩
            else some replacement
        | _ => some replacement
      else if 0xf0 ≤ lead && lead ≤ 0xf4 then
        match rest with
        | second :: third :: fourth :: _ =>
            if follows lead second && isContinuation third && isContinuation fourth then
              some ⟨((lead.toNat % 8 * 64 + payload second) * 64 + payload third) * 64 +
                payload fourth, 4⟩
            else some replacement
        | _ => some replacement
      else some replacement

/-- The character that a whole group of bytes spells, if it spells exactly one. -/
def ofGroup (group : Text) : Rune :=
  match first? group with
  | some rune => if rune.size = group.length then rune else replacement
  | none => replacement

/--
The last character of a text given in reverse.  The nearest byte before the last one that is not a
continuation byte, at most four bytes from the end, must start a sequence that ends the text.
-/
def last? : Text → Option Rune
  | [] => none
  | last :: before =>
      if last < 0x80 then some ⟨last.toNat, 1⟩
      else
        match before with
        | [] => some replacement
        | second :: beforeSecond =>
            if !isContinuation second then some (ofGroup [second, last])
            else
              match beforeSecond with
              | [] => some replacement
              | third :: beforeThird =>
                  if !isContinuation third then some (ofGroup [third, second, last])
                  else
                    match beforeThird with
                    | [] => some replacement
                    | fourth :: _ =>
                        if !isContinuation fourth then
                          some (ofGroup [fourth, third, second, last])
                        else some replacement

/-- The UTF-8 bytes of a code point; surrogates and numbers past the last plane have none. -/
def encode (code : Nat) : Text :=
  if code < 0x80 then [UInt8.ofNat code]
  else if code < 0x800 then
    [UInt8.ofNat (0xc0 + code / 64), UInt8.ofNat (0x80 + code % 64)]
  else if code < 0x10000 then
    if 0xd800 ≤ code && code ≤ 0xdfff then encodeReplacement
    else [UInt8.ofNat (0xe0 + code / 4096), UInt8.ofNat (0x80 + code / 64 % 64),
      UInt8.ofNat (0x80 + code % 64)]
  else if code < 0x110000 then
    [UInt8.ofNat (0xf0 + code / 262144), UInt8.ofNat (0x80 + code / 4096 % 64),
      UInt8.ofNat (0x80 + code / 64 % 64), UInt8.ofNat (0x80 + code % 64)]
  else encodeReplacement
where
  /-- The bytes of the replacement character. -/
  encodeReplacement : Text := [0xef, 0xbf, 0xbd]

/-- Decode characters; `skip` counts the bytes that belong to the character read last. -/
def decodeFrom : Nat → Text → List Rune → List Rune
  | _, [], done => done.reverse
  | skip + 1, _ :: rest, done => decodeFrom skip rest done
  | 0, byte :: rest, done =>
      match first? (byte :: rest) with
      | some rune => decodeFrom (rune.size - 1) rest (rune :: done)
      | none => done.reverse

/-- The characters of a text in order. -/
def decode (text : Text) : List Rune :=
  decodeFrom 0 text []

/-- Whether a character was read from a well-formed sequence. -/
def isWellFormed (rune : Rune) : Bool :=
  rune != replacement

/-- Whether all bytes of a text form well-formed sequences. -/
def isValidText (text : Text) : Bool :=
  (decode text).all isWellFormed

/-- Whether a code point lies in one of some ranges, which are given in order. -/
def isWithin : List (Nat × Nat) → Nat → Bool
  | [], _ => false
  | (least, greatest) :: rest, code =>
      if code < least then false else code ≤ greatest || isWithin rest code

/-- The code points that count as blank in any script of the world. -/
def isBlankCode (code : Nat) : Bool :=
  (0x09 ≤ code && code ≤ 0x0d) || code == 0x20 || code == 0x85 || code == 0xa0 ||
    code == 0x1680 || (0x2000 ≤ code && code ≤ 0x200a) || code == 0x2028 || code == 0x2029 ||
    code == 0x202f || code == 0x205f || code == 0x3000

/-- The characters that count as blank in any script of the world. -/
def isBlank (rune : Rune) : Bool :=
  isBlankCode rune.code

end Rune

end LittleScript
