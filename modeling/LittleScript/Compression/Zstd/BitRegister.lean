import LittleScript.Compression.Bits
import LittleScript.Compression.Defect

namespace LittleScript.Compression.Zstd

/-!
# A register over bits read from the end

The numbers of sequences are read through a register of eight bytes.  It is filled from the end of
a text, and its bits are used from the highest one on.  Bits may be asked for that are not there;
whether this happened is found when the register is filled again and when all is read.
-/

/-- The register: the bytes not loaded yet, the eight bytes loaded last, and the bits used. -/
structure BitRegister where
  bytes : Array UInt8
  unloaded : Nat
  value : UInt64
  used : Nat
  deriving Repr, DecidableEq

namespace BitRegister

/-- The number of bits of the register. -/
def size : Nat := 64

/-- Load bytes, the last one first. -/
def load : Nat → BitRegister → BitRegister
  | 0, register => register
  | count + 1, register =>
      match register.unloaded with
      | 0 => register
      | unloaded + 1 =>
          load count
            { register with
              unloaded
              value := (register.value <<< 8) ||| (register.bytes.getD unloaded 0).toUInt64
              used := register.used - 8 }

/-- The register over a text that ends in a marked byte. -/
def ofText (text : Text) : Except Defect BitRegister :=
  match text.getLast? with
  | none => .error .noStream
  | some last =>
      if last == 0 then .error .unmarkedStream
      else
        let register := load 8 ⟨text.toArray, text.length, 0, size⟩
        .ok { register with used := register.used + (8 - last.toNat.log2) }

/-- Load half of the register, if half of it is used. -/
def fillHalf (register : BitRegister) : BitRegister :=
  if register.used < 32 then register else load 4 register

/-- Load all bytes whose places are used up; there must not be more bits used than there were. -/
def fill (register : BitRegister) : Except Defect BitRegister :=
  let filled := load (register.used / 8) register
  if filled.unloaded = 0 && size < filled.used then .error .unexpectedEnd else .ok filled

/-- The lowest bits of a word. -/
def lowest (word : UInt64) (count : Nat) : Nat :=
  word.toNat % Nat.pow 2 count

/-- Turn a word to the left. -/
def rotate (word : UInt64) (amount : Nat) : UInt64 :=
  let amount := UInt64.ofNat (amount % size)
  (word <<< amount) ||| (word >>> (64 - amount))

/-- Take bits; those behind the last one are the highest of the register again. -/
def take (register : BitRegister) (wanted : Nat) : Nat × BitRegister :=
  let used := register.used + wanted
  (lowest (rotate register.value used) wanted, { register with used })

/-- Take the bits of a first state; those behind the last one are zeros. -/
def takeFirst (register : BitRegister) (wanted : Nat) : Nat × BitRegister :=
  let shifted := register.value <<< UInt64.ofNat (register.used % size)
  (shifted.toNat / Nat.pow 2 (size - wanted), { register with used := register.used + wanted })

/-- All bits must be used, and no more. -/
def close (register : BitRegister) : Except Defect Unit :=
  if register.used < size then .error (.bitsLeft (size - register.used))
  else if size < register.used then .error .unexpectedEnd
  else .ok ()

end BitRegister

end LittleScript.Compression.Zstd
