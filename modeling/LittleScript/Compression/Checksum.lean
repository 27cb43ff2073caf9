import LittleScript.Text

namespace LittleScript.Compression

/-!
# Cyclic redundancy check

The 32-bit check value that ends a member of a compressed file.
-/

/-- One step of the shift register. -/
def checksumBit (register : UInt32) : UInt32 :=
  if register &&& 1 == 1 then (register >>> 1) ^^^ 0xedb88320 else register >>> 1

/-- Take one byte into the register. -/
def checksumByte (register : UInt32) (byte : UInt8) : UInt32 :=
  Nat.repeat checksumBit 8 (register ^^^ byte.toUInt32)

/-- The check value of a text. -/
def checksum (text : Text) : UInt32 :=
  text.foldl checksumByte 0xffffffff ^^^ 0xffffffff

end LittleScript.Compression
