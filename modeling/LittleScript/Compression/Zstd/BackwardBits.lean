import LittleScript.Compression.Defect

namespace LittleScript.Compression.Zstd

/-!
# Bits read from the end

Some parts of a block are written forwards and read backwards: the last bit written is the first
one read.  The highest set bit of the last byte marks where the bits end and is not one of them.
-/

/-- Bits waiting to be read: the lowest `left` ones of the bytes, the highest of them first. -/
structure BackwardBits where
  bytes : Array UInt8
  left : Nat
  deriving Repr, DecidableEq

namespace BackwardBits

/-- The bits of a text that ends in a marked byte. -/
def ofText (text : Text) : Except Defect BackwardBits :=
  match text.getLast? with
  | none => .error .noStream
  | some last =>
      if last == 0 then .error .unmarkedStream
      else .ok ⟨text.toArray, 8 * (text.length - 1) + last.toNat.log2⟩

/-- One bit, counted from the lowest bit of the first byte. -/
def bitAt (bytes : Array UInt8) (index : Nat) : Nat :=
  (bytes.getD (index / 8) 0).toNat / Nat.pow 2 (index % 8) % 2

/-- Append `wanted` bits to a number; below the lowest bit there are only zeros. -/
def peekFrom (bytes : Array UInt8) : Nat → Nat → Nat → Nat
  | 0, _, number => number
  | wanted + 1, 0, number => peekFrom bytes wanted 0 (2 * number)
  | wanted + 1, left + 1, number =>
      peekFrom bytes wanted left (2 * number + bitAt bytes left)

/-- The number that the next bits spell. -/
def peek (bits : BackwardBits) (wanted : Nat) : Nat :=
  peekFrom bits.bytes wanted bits.left 0

/-- Leave out a number of bits, or all there are. -/
def drop (bits : BackwardBits) (unwanted : Nat) : BackwardBits :=
  { bits with left := bits.left - unwanted }

end BackwardBits

end LittleScript.Compression.Zstd
