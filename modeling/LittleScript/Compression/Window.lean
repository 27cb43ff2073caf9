import LittleScript.Text

namespace LittleScript.Compression

/-!
# Copies of what was written before

Both compressed formats describe a repetition by how far back it starts and how long it is.  The
two may overlap: a byte that has just been copied can be copied again.
-/

/-- Append `length` bytes, each the one that stands `distance` before it. -/
def copyBack (distance : Nat) : Nat → Array UInt8 → Array UInt8
  | 0, output => output
  | length + 1, output =>
      copyBack distance length (output.push (output.getD (output.size - distance) 0))

end LittleScript.Compression
