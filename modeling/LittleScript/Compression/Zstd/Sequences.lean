import LittleScript.Compression.Window
import LittleScript.Compression.Zstd.BitRegister
import LittleScript.Compression.Zstd.StateTable

namespace LittleScript.Compression.Zstd

/-!
# Sequences of a block

A sequence says how many literals come next and which stretch of the text before them is then
repeated.  Its three numbers are codes with extra bits, each code with a state table of its own.
-/

/-- A kind of number in a sequence: its name, base and extra bits of its codes, and its table. -/
structure Field where
  name : String
  ranges : Array (Nat × Nat)
  standard : StateTable

namespace Field

/-- The finest table of any field. -/
def finest : Nat := 9

/-- Shares of a standard table: the common ones, then a number of rare ones. -/
def standardShares (common : List Nat) (rare : Nat) : List Share :=
  common.map Share.cells ++ List.replicate rare .rare

/-- How many literals come next: base and extra bits of each code. -/
def literalLength : Field where
  name := "litLengths"
  ranges := ((List.range 16).map fun code => (code, 0)).toArray ++
    #[(16, 1), (18, 1), (20, 1), (22, 1), (24, 2), (28, 2), (32, 3), (40, 3), (48, 4), (64, 6),
      (128, 7), (256, 8), (512, 9), (1024, 10), (2048, 11), (4096, 12), (8192, 13), (16384, 14),
      (32768, 15), (65536, 16)]
  standard := .ofShares 6 (standardShares
    [4, 3, 2, 2, 2, 2, 2, 2, 2, 2, 2, 2, 2, 1, 1, 1, 2, 2, 2, 2, 2, 2, 2, 2, 2, 3, 2, 1, 1, 1, 1, 1]
    4)

/-- How long the repetition is. -/
def matchLength : Field where
  name := "matchLengths"
  ranges := ((List.range 32).map fun code => (code + 3, 0)).toArray ++
    #[(35, 1), (37, 1), (39, 1), (41, 1), (43, 2), (47, 2), (51, 3), (59, 3), (67, 4), (83, 4),
      (99, 5), (131, 7), (259, 8), (515, 9), (1027, 10), (2051, 11), (4099, 12), (8195, 13),
      (16387, 14), (32771, 15), (65539, 16)]
  standard := .ofShares 6 (standardShares
    ([1, 4, 3, 2, 2, 2, 2, 2, 2] ++ List.replicate 37 1) 7)

/-- How far back the repetition starts. -/
def offset : Field where
  name := "offsets"
  ranges := ((List.range 31).map fun code => (Nat.pow 2 code, code)).toArray
  standard := .ofShares 5 (standardShares
    [1, 1, 1, 1, 1, 1, 2, 2, 2, 1, 1, 1, 1, 1, 1, 1, 1, 1, 1, 1, 1, 1, 1, 1] 5)

/-- A table must have no symbol beyond the codes of the field. -/
def check (field : Field) (table : StateTable) : Except Defect StateTable :=
  match table.entries.findIdx? fun entry => field.ranges.size ≤ entry.symbol with
  | none => .ok table
  | some index => .error (.entryTooLarge index (table.entry index).symbol field.ranges.size)

/--
Read which table a block uses: the standard one, one symbol only, its own, or the one of the block
before, if there was one.
-/
def readTable (field : Field) (mode : Nat) (known : Option StateTable) (text : Text) :
    Except Defect (Option StateTable × Text) := do
  match mode, text with
  | 0, _ => return (field.standard, text)
  | 1, [] => throw .blockTooSmall
  | 1, symbol :: rest =>
      if symbol.toNat < field.ranges.size then return (some (.single symbol.toNat), rest)
      else throw (.singleSymbolTooLarge symbol.toNat field.ranges.size)
  | 2, _ =>
      let (table, rest) ← StateTable.read finest (field.ranges.size - 1) text
      return (← field.check table, rest)
  | _, _ => return (known, text)

/-- The table that a block is to use. -/
def require (field : Field) (table : Option StateTable) : Except Defect StateTable :=
  match table with
  | some table => .ok table
  | none => .error (.noTable field.name)

/-- Base and extra bits of the code of a state. -/
def rangeOf (field : Field) (entry : StateEntry) : Nat × Nat :=
  field.ranges.getD entry.symbol (0, 0)

/-- The most extra bits that a table can ask for. -/
def mostBits (field : Field) (table : StateTable) : Nat :=
  table.entries.foldl (fun most entry => max most (field.rangeOf entry).2) 0

/-- The number that a code and its extra bits stand for. -/
def value (field : Field) (entry : StateEntry) (register : BitRegister) : Nat × BitRegister :=
  let (base, extra) := field.rangeOf entry
  let (number, register) := register.take extra
  (base + number, register)

end Field

/-- The three tables of a block. -/
structure Tables where
  literalLength : StateTable
  offset : StateTable
  matchLength : StateTable

/-- The distances used last, the latest first. -/
structure Recent where
  first : Nat := 1
  second : Nat := 4
  third : Nat := 8
  deriving Repr, DecidableEq

/--
The distance that an offset stands for, and what is then remembered.  The three smallest offsets
mean a distance used before; without literals, the one before that.  No distance is zero.
-/
def Recent.resolve (recent : Recent) (offset literals : Nat) : Nat × Recent :=
  let index := if literals == 0 then offset + 1 else offset
  if 3 < offset then
    let distance := offset - 3
    (distance, ⟨distance, recent.first, recent.second⟩)
  else if index ≤ 1 then (recent.first, recent)
  else if index == 2 then (recent.second, ⟨recent.second, recent.first, recent.third⟩)
  else if index == 3 then (recent.third, ⟨recent.third, recent.first, recent.second⟩)
  else
    let distance := max 1 (recent.first - 1)
    (distance, ⟨distance, recent.first, recent.second⟩)

/-- A sequence: how many literals come next, and what is then repeated. -/
structure Sequence where
  literals : Nat
  length : Nat
  distance : Nat
  deriving Repr, DecidableEq

/-- The states of the three readers. -/
structure Readers where
  literalLength : StateEntry
  offset : StateEntry
  matchLength : StateEntry

/-- The state in which a reader starts. -/
def StateTable.start (table : StateTable) (register : BitRegister) : StateEntry × BitRegister :=
  let (index, register) := register.fillHalf.takeFirst table.accuracy
  (table.entry index, register)

/-- The states in which a block starts. -/
def Tables.start (tables : Tables) (register : BitRegister) : Readers × BitRegister :=
  let (literalLength, register) := tables.literalLength.start register
  let (offset, register) := tables.offset.start register
  let (matchLength, register) := tables.matchLength.start register
  (⟨literalLength, offset, matchLength⟩, register)

/-- The states that follow; their bits are taken together. -/
def Tables.next (tables : Tables) (readers : Readers) (register : BitRegister) :
    Readers × BitRegister :=
  let offsetUnit := Nat.pow 2 readers.offset.width
  let matchUnit := Nat.pow 2 readers.matchLength.width
  let (bits, register) := register.take
    (readers.literalLength.width + readers.matchLength.width + readers.offset.width)
  ({ offset := tables.offset.after readers.offset (bits % offsetUnit)
     matchLength := tables.matchLength.after readers.matchLength (bits / offsetUnit % matchUnit)
     literalLength :=
       tables.literalLength.after readers.literalLength (bits / offsetUnit / matchUnit) },
    register)

/-- Whether the register never runs empty within one sequence. -/
def Tables.isModest (tables : Tables) : Bool :=
  Field.literalLength.mostBits tables.literalLength + tables.literalLength.accuracy +
    Field.offset.mostBits tables.offset + tables.offset.accuracy +
    Field.matchLength.mostBits tables.matchLength + tables.matchLength.accuracy ≤ 56

/-- What decoding sequences keeps: states, bits, distances used last, and literals left. -/
structure Decoding where
  readers : Readers
  register : BitRegister
  recent : Recent
  available : Nat

/-- Decode one sequence. -/
def Decoding.sequence (decoding : Decoding) (isModest : Bool) :
    Except Defect (Sequence × Decoding) := do
  let readers := decoding.readers
  let register ← decoding.register.fill
  let (offset, register) := Field.offset.value readers.offset register
  let (length, register) := Field.matchLength.value readers.matchLength register
  let register ← if isModest then pure register else register.fill
  let (literals, register) := Field.literalLength.value readers.literalLength register
  let (distance, recent) := decoding.recent.resolve offset literals
  if decoding.available < literals then throw (.tooFewLiterals literals decoding.available)
  return (⟨literals, length, distance⟩,
    { decoding with register, recent, available := decoding.available - literals })

/-- Decode a number of sequences; `done` is in reverse. -/
def Tables.decode (tables : Tables) (isModest : Bool) : Nat → Decoding → List Sequence →
    Except Defect (List Sequence × Decoding)
  | 0, decoding, done => .ok (done.reverse, decoding)
  | remaining + 1, decoding, done => do
      let (sequence, decoding) ← decoding.sequence isModest
      if remaining == 0 then return ((sequence :: done).reverse, decoding)
      else
        let (readers, register) := tables.next decoding.readers decoding.register
        tables.decode isModest remaining { decoding with readers, register } (sequence :: done)

/-- Read how many sequences there are. -/
def readCount (text : Text) : Except Defect (Nat × Text) :=
  match text with
  | [] => .error .blockTooSmall
  | head :: rest =>
      if head < 128 then .ok (head.toNat, rest)
      else
        match head == 255, rest with
        | false, low :: rest => .ok ((head.toNat - 128) * 256 + low.toNat, rest)
        | true, low :: high :: rest => .ok (32512 + low.toNat + 256 * high.toNat, rest)
        | _, _ => .error .blockTooSmall

/-- The sequences of a block with the tables and distances to be used next. -/
structure SequencePart where
  sequences : List Sequence
  tables : Option Tables
  recent : Recent

/-- How many bytes sequences write when `left` literals follow them. -/
def sizeOf (sequences : List Sequence) (left : Nat) : Nat :=
  sequences.foldl (fun total sequence => total + sequence.literals + sequence.length) left

/-- Read sequences that follow their number. -/
def readTables (known : Option Tables) (text : Text) :
    Except Defect (Tables × BitRegister) := do
  match text with
  | [] => throw .blockTooSmall
  | head :: text =>
      let modes := head.toNat
      if modes % 4 ≠ 0 then throw .reservedModes
      let (literalLength, text) ←
        Field.literalLength.readTable (modes / 64) (known.map Tables.literalLength) text
      let (offset, text) ←
        Field.offset.readTable (modes / 16 % 4) (known.map Tables.offset) text
      let (matchLength, text) ←
        Field.matchLength.readTable (modes / 4 % 4) (known.map Tables.matchLength) text
      let register ← BitRegister.ofText text
      let literalLength ← Field.literalLength.require literalLength
      let offset ← Field.offset.require offset
      let matchLength ← Field.matchLength.require matchLength
      return (⟨literalLength, offset, matchLength⟩, register)

/--
Read the sequences of a block that has `available` literals and may write at most `limit` bytes.
-/
def readSequences (limit available : Nat) (known : Option Tables) (recent : Recent)
    (text : Text) : Except Defect SequencePart := do
  let (count, text) ← readCount text
  if count == 0 then
    if text.isEmpty then return ⟨[], known, recent⟩ else throw .blockNotUsedUp
  let (tables, register) ← readTables known text
  let (readers, register) := tables.start register
  let (sequences, final) ←
    tables.decode tables.isModest count { readers, register, recent, available } []
  if limit < sizeOf sequences final.available then throw (.outputTooLarge limit)
  final.register.close
  return ⟨sequences, some tables, final.recent⟩

/--
Carry out sequences: `used` literals have been written already, and the block started when the
content had `start` bytes.  A repetition reaches no farther than the window.
-/
def execute (literals : Array UInt8) (window start : Nat) : List Sequence → Nat →
    Array UInt8 → Except Defect (Array UInt8)
  | [], used, output => .ok (output ++ literals.extract used literals.size)
  | sequence :: rest, used, output =>
      let reached := used + sequence.literals
      let output := output ++ literals.extract used reached
      let reach := output.size - start + min start window
      if reach < sequence.distance || window < sequence.distance then
        .error (.matchTooFar sequence.distance reach)
      else
        execute literals window start rest reached
          (copyBack sequence.distance sequence.length output)

end LittleScript.Compression.Zstd
