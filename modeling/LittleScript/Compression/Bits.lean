import LittleScript.Text

namespace LittleScript.Compression

/-!
# Bits of a byte stream

Bits are taken from the low end of each byte first.  A reader keeps the bytes not yet touched and
the bits left over from the bytes touched before.
-/

/-- Bits waiting to be read: `count` low bits of `buffer`, then the bytes. -/
structure BitStream where
  bytes : Text
  buffer : Nat := 0
  count : Nat := 0
  deriving Repr, DecidableEq

namespace BitStream

/-- Touch bytes until at least `wanted` bits are at hand. -/
def loadFrom (wanted : Nat) : Text → Nat → Nat → Option BitStream
  | bytes, buffer, count =>
      if wanted ≤ count then some ⟨bytes, buffer, count⟩
      else
        match bytes with
        | [] => none
        | byte :: rest => loadFrom wanted rest (buffer + byte.toNat * Nat.pow 2 count) (count + 8)

/-- Have at least `wanted` bits at hand; there may be too few. -/
def load? (stream : BitStream) (wanted : Nat) : Option BitStream :=
  loadFrom wanted stream.bytes stream.buffer stream.count

/-- Leave out bits that are at hand. -/
def drop (stream : BitStream) (unwanted : Nat) : BitStream :=
  { stream with
    buffer := stream.buffer / Nat.pow 2 unwanted
    count := stream.count - unwanted }

/-- Take a number of bits, the first one lowest. -/
def take? (stream : BitStream) (wanted : Nat) : Option (Nat × BitStream) :=
  (stream.load? wanted).map fun loaded =>
    (loaded.buffer % Nat.pow 2 wanted, loaded.drop wanted)

end BitStream

/-- Bytes of a number, the lowest first. -/
def littleEndian : Nat → Nat → Text
  | 0, _ => []
  | width + 1, number => UInt8.ofNat (number % 256) :: littleEndian width (number / 256)

/-- The number that bytes spell, the lowest first. -/
def ofLittleEndian : Text → Nat
  | [] => 0
  | byte :: rest => byte.toNat + 256 * ofLittleEndian rest

end LittleScript.Compression
