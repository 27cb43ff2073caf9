import LittleScript.Compression.Zstd.BackwardBits
import LittleScript.Compression.Zstd.StateTable

namespace LittleScript.Compression.Zstd

/-!
# Prefix codes for literals

A prefix code is given by a weight for each byte: the larger the weight, the shorter the code word.
The weight of the last byte is not sent.  Weights are sent plainly or compressed.
-/

/-- A prefix code for bytes: what the next `depth` bits stand for, and how many of them count. -/
structure LiteralCode where
  depth : Nat
  entries : Array (UInt8 × Nat)
  deriving Repr, DecidableEq

namespace LiteralCode

/-- The longest code word, which is also the greatest weight. -/
def deepest : Nat := 11

/-- How many cells a weight stands for. -/
def cellsOf (weight : Nat) : Nat :=
  if weight == 0 then 0 else Nat.pow 2 (weight - 1)

/-- The code of complete weights: each byte has a run of cells, those of low weight first. -/
def ofWeights (depth : Nat) (weights : List Nat) : LiteralCode :=
  let numbered := weights.zipIdx
  let cells := ((List.range depth).map (· + 1)).flatMap fun weight =>
    (numbered.filter fun entry => entry.1 == weight).flatMap fun entry =>
      List.replicate (cellsOf weight) (UInt8.ofNat entry.2, depth + 1 - weight)
  ⟨depth, cells.toArray⟩

/-- Add the last weight, which fills the cells up to a power of two. -/
def complete (weights : List Nat) : Except Defect LiteralCode := do
  if weights.any (deepest < ·) then throw .weightTooLarge
  let total := weights.foldl (fun total weight => total + cellsOf weight) 0
  if total == 0 then throw .weightsZero
  let depth := total.log2 + 1
  if deepest < depth then throw .codeTooDeep
  let room := Nat.pow 2 depth - total
  if Nat.pow 2 room.log2 ≠ room then throw .lastWeightUneven
  let weights := weights ++ [room.log2 + 1]
  let least := weights.count 1
  if least < 2 || least % 2 == 1 then throw .leastWeightsUneven
  return ofWeights depth weights

/-- Bits being read, and whether some were asked for when only a part of them was left. -/
structure Intake where
  bits : BackwardBits
  isShort : Bool := false
  deriving Repr, DecidableEq

/-- Take bits; when there are none left, they are zeros. -/
def Intake.take (intake : Intake) (wanted : Nat) : Nat × Intake :=
  if wanted == 0 || intake.bits.left == 0 then (0, intake)
  else
    (intake.bits.peek wanted,
      ⟨intake.bits.drop wanted, intake.isShort || intake.bits.left < wanted⟩)

/--
Decode weights with two readers that take turns, until one of them asks for bits and none are left;
`done` is in reverse.
-/
def alternate (table : StateTable) : Nat → StateEntry → StateEntry → Intake → List Nat →
    Except Defect (List Nat)
  | 0, _, _, _, _ => .error .weightsUnfinished
  | bound + 1, current, other, intake, done =>
      if intake.bits.left == 0 && 0 < current.width then
        if intake.isShort then .error .unexpectedEnd
        else .ok (other.symbol :: current.symbol :: done).reverse
      else
        let (number, intake) := intake.take current.width
        alternate table bound other (table.after current number) intake (current.symbol :: done)

/-- The finest table for weights. -/
def finestTable : Nat := 15

/-- Read weights that are themselves compressed. -/
def packedWeights (text : Text) : Except Defect (List Nat) := do
  let (table, rest) ← StateTable.read finestTable 65535 text
  let intake : Intake := { bits := ← BackwardBits.ofText rest }
  let (first, intake) := intake.take table.accuracy
  let (second, intake) := intake.take table.accuracy
  alternate table 256 (table.entry first) (table.entry second) intake []

/-- Weights of four bits each, the high half of a byte first. -/
def plainWeights (text : Text) : List Nat :=
  text.flatMap fun byte => [byte.toNat / 16, byte.toNat % 16]

/-- Read weights; the text is what follows them. -/
def readWeights (text : Text) : Except Defect (List Nat × Text) :=
  match text with
  | [] | [_] => .error .weightsTooShort
  | head :: rest =>
      if 128 ≤ head then
        let count := head.toNat - 127
        let size := (count + 1) / 2
        if rest.length < size then .error .weightsTooShort
        else .ok ((plainWeights (rest.take size)).take count, rest.drop size)
      else
        let size := head.toNat
        if rest.length < size then .error (.packedWeightsTooShort size rest.length)
        else
          match packedWeights (rest.take size) with
          | .error defect => .error (.packedWeights defect)
          | .ok weights =>
              if 255 < weights.length then .error .tooManyWeights
              else .ok (weights, rest.drop size)

/-- Read a code; the text is what follows it. -/
def read (text : Text) : Except Defect (LiteralCode × Text) := do
  let (weights, rest) ← readWeights text
  return (← complete weights, rest)

/-- The byte that comes next, and the length of its code word. -/
def next (code : LiteralCode) (bits : BackwardBits) : UInt8 × Nat :=
  code.entries.getD (bits.peek code.depth) (0, 0)

end LiteralCode

end LittleScript.Compression.Zstd
