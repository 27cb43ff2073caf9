import LittleScript.Compression.Bits
import LittleScript.Compression.Defect

namespace LittleScript.Compression.Zstd

/-!
# How much of a table each symbol owns

The description of a state table gives every symbol its share of the cells.  It is read through a
word of four bytes that moves over the text and stops four bytes before its end.
-/

/-- How much of a table a symbol owns; a rare one has a single cell, at the end of the table. -/
inductive Share where
  | rare
  | cells (count : Nat)
  deriving Repr, DecidableEq

/-- The number of cells of a share. -/
def Share.size : Share → Nat
  | .rare => 1
  | .cells count => count

/-- Whether a share is that of a rare symbol. -/
def Share.isRare : Share → Bool
  | .rare => true
  | .cells _ => false

/-- A word over a text: where it starts, how many of its bits are used, and the others. -/
structure ShareReader where
  bytes : Array UInt8
  offset : Nat
  used : Nat
  word : Nat
  deriving Repr, DecidableEq

namespace ShareReader

/-- The word at an offset without its lowest bits. -/
def wordAt (bytes : Array UInt8) (offset shift : Nat) : Nat :=
  ofLittleEndian (bytes.extract offset (offset + 4)).toList / Nat.pow 2 shift

/-- The word over the front of a text. -/
def ofText? (text : Text) : Option ShareReader :=
  let bytes := text.toArray
  if bytes.size < 4 then none else some ⟨bytes, 0, 0, wordAt bytes 0 0⟩

/-- How many bytes there are from the word on. -/
def remaining (reader : ShareReader) : Nat :=
  reader.bytes.size - reader.offset

/-- Put bits of the word behind. -/
def skip (reader : ShareReader) (count : Nat) : ShareReader :=
  { reader with used := reader.used + count, word := reader.word / Nat.pow 2 count }

/-- Whether the word can move over the bytes used up. -/
def canMove (reader : ShareReader) : Bool :=
  7 ≤ reader.remaining || reader.used / 8 + 4 ≤ reader.remaining

/-- Move the word over the bytes used up. -/
def move (reader : ShareReader) : ShareReader :=
  let offset := reader.offset + reader.used / 8
  let used := reader.used % 8
  { reader with offset, used, word := wordAt reader.bytes offset used }

/-- Move the word over the bytes used up, or to the last four bytes. -/
def settle (reader : ShareReader) : ShareReader :=
  if reader.canMove then reader.move
  else
    let offset := reader.bytes.size - 4
    let used := reader.used - 8 * (offset - reader.offset)
    { reader with offset, used, word := wordAt reader.bytes offset (used % 32) }

/-- Pass the longest marks of a gap, each for 24 symbols. -/
def longGap : Nat → ShareReader → Nat → Nat × ShareReader
  | 0, reader, gap => (gap, reader)
  | bound + 1, reader, gap =>
      if reader.word % 0x10000 ≠ 0xffff then (gap, reader)
      else if 5 < reader.remaining then
        let offset := reader.offset + 2
        let word := wordAt reader.bytes offset reader.used
        longGap bound { reader with offset, word } (gap + 24)
      else longGap bound (reader.skip 16) (gap + 24)

/-- Pass marks of a gap, each for three symbols. -/
def shortGap : Nat → ShareReader → Nat → Nat × ShareReader
  | 0, reader, gap => (gap, reader)
  | bound + 1, reader, gap =>
      if reader.word % 4 = 3 then shortGap bound (reader.skip 2) (gap + 3) else (gap, reader)

/-- The greatest symbol of any table. -/
def greatestSymbol : Nat := 255

/--
Read how many symbols without a share follow the first `count` ones; the result counts them in.
The count is kept in 16 bits.
-/
def gap (reader : ShareReader) (count : Nat) : Except Defect (Nat × ShareReader) :=
  let (reached, reader) := longGap (reader.bytes.size + 4) reader count
  let (reached, reader) := shortGap 16 reader reached
  let reached := (reached + reader.word % 4) % 0x10000
  if greatestSymbol < reached then .error .symbolTooLarge
  else
    let used := { reader with used := reader.used + 2 }
    .ok (max count reached,
      if used.canMove then used.move else { used with word := used.word / 4 })

/--
Read a number from zero to `cells`.  The smaller ones take one bit less, as many as are needed for
the codes to come out even.
-/
def value (reader : ShareReader) (cells : Nat) : Nat × ShareReader :=
  let width := cells.log2
  let unit := Nat.pow 2 width
  let short := 2 * unit - 1 - cells
  let low := reader.word % unit
  let wide := reader.word % (2 * unit)
  if low < short then (low, { reader with used := reader.used + width })
  else
    (if unit ≤ wide then wide - short else wide,
      { reader with used := reader.used + width + 1 })

/--
Read shares while more than one of the `cells` is left and the next symbol is at most `last`;
`done` is in reverse and has `count` symbols.
-/
def shares (last : Nat) : Nat → ShareReader → Nat → Nat → Bool → List Share →
    Except Defect (List Share × Nat × ShareReader)
  | 0, reader, cells, _, _, done => .ok (done.reverse, cells, reader)
  | bound + 1, reader, cells, count, inGap, done =>
      if cells ≤ 1 || last < count then .ok (done.reverse, cells, reader)
      else do
        let (reached, reader) ← if inGap then reader.gap count else pure (count, reader)
        let done := List.replicate (reached - count) (.cells 0) ++ done
        let (value, reader) := reader.value cells
        let reader := reader.settle
        match value with
        | 0 => shares last bound reader (cells - 1) (reached + 1) false (.rare :: done)
        | size + 1 =>
            shares last bound reader (cells - size) (reached + 1) (size == 0)
              (.cells size :: done)

/-- The coarsest accuracy of a table. -/
def coarsest : Nat := 5

/--
Read the description of a table with at most `2 ^ finest` cells for the symbols up to `last`: its
accuracy, the shares, and what follows.
-/
def read (finest last : Nat) (text : Text) : Except Defect (Nat × List Share × Text) := do
  match ofText? text with
  | none => throw .descriptionTooShort
  | some reader =>
      let accuracy := reader.word % 16 + coarsest
      if finest < accuracy then throw .tableTooLarge
      let cells := Nat.pow 2 accuracy + 1
      let (shares, cells, reader) ← shares last (cells + 256) (reader.skip 4) cells 0 false []
      let count := shares.length
      if count ≤ 1 then throw (.tooFewSymbols count)
      if greatestSymbol + 1 < count then throw (.tooManySymbols count)
      if cells ≠ 1 then throw (.cellsLeft cells)
      if 32 < reader.used then throw (.bitsMissing reader.used)
      return (accuracy, shares, text.drop (reader.offset + (reader.used + 7) / 8))

end ShareReader

end LittleScript.Compression.Zstd
