import LittleScript.Compression.Bits
import LittleScript.Compression.Defect
import LittleScript.Compression.Window

namespace LittleScript.Compression

/-!
# Decoding deflate streams

A stream is a sequence of blocks, stored or coded with two prefix codes: one for literals and copy
lengths, one for copy distances.  A code is given by the lengths of its code words alone.  Bytes are
touched ahead of what a code word needs, as far as the block must go on; a defect is reported at the
bytes touched so far.
-/

/--
A prefix code: how many code words there are of each length from one on, and the symbols in order
of their code words.
-/
structure PrefixCode where
  counts : List Nat := []
  symbols : Array Nat := #[]
  /-- How many bits are brought to hand before a code word is looked up. -/
  lookahead : Nat := 0
  /-- Whether only the first bits are looked at, and zeros are taken for the others. -/
  isNarrow : Bool := false
  deriving Repr, DecidableEq

namespace PrefixCode

/-- The code whose symbol `i` has a code word of the `i`-th length; length zero means none. -/
def ofLengths (lengths : List Nat) : PrefixCode :=
  let ranks := (List.range (lengths.foldl max 0)).map (· + 1)
  let numbered := lengths.zipIdx
  let counts := ranks.map fun rank => lengths.count rank
  { counts
    symbols := (ranks.flatMap fun rank =>
      (numbered.filter fun entry => entry.1 == rank).map Prod.snd).toArray
    lookahead := (counts.takeWhile (· == 0)).length + 1 }

/--
Whether the code words leave no room and do not overlap; a code may also have no word at all, or a
single one of one bit.
-/
def isUsable (code : PrefixCode) : Bool :=
  let room : Int := code.counts.foldl (fun room count => 2 * room - Int.ofNat count) 1
  room == 0 || code.counts.isEmpty || code.counts == [1]

/-- A code without words leaves the one before it in force, which is then looked up narrowly. -/
def orElse (code before : PrefixCode) : PrefixCode :=
  if code.counts.isEmpty then { before with lookahead := 0, isNarrow := true } else code

/-- The width of a narrow look-up. -/
def narrowWidth : Nat := 9

/-- Walk down the code: `first` and `index` belong to the current length. -/
def walk (code : PrefixCode) : List Nat → Nat → Nat → Nat → Nat → Nat → Option (Nat × Nat)
  | [], _, _, _, _, _ => none
  | count :: longer, length, bits, value, first, index =>
      let value := 2 * value + bits % 2
      let first := 2 * first
      if value < first + count then
        code.symbols[index + (value - first)]?.map fun symbol => (symbol, length)
      else walk code longer (length + 1) (bits / 2) value (first + count) (index + count)

/-- The symbol whose code word stands at the low end of some bits, and the length of that word. -/
def find? (code : PrefixCode) (bits : Nat) : Option (Nat × Nat) :=
  let seen := if code.isNarrow then bits % Nat.pow 2 narrowWidth else bits
  code.walk code.counts 1 seen 0 0 0

end PrefixCode

namespace Inflate

/-- The prefix codes read last, which a code without words falls back on. -/
structure Codes where
  literals : PrefixCode := {}
  distances : PrefixCode := {}
  deriving Repr, DecidableEq

/-- A decoder in the middle of a stream. -/
structure State where
  input : BitStream
  output : Array UInt8 := #[]
  /-- The number of bytes to count in offsets. -/
  total : Nat
  codes : Codes

/-- The offset up to which input has been touched. -/
def State.offset (state : State) : Nat :=
  state.total - state.input.bytes.length

/-- The defect of a stream that breaks the rules here. -/
def State.corrupt (state : State) : Defect :=
  .corrupt state.offset

/-- Have bits at hand. -/
def State.load (state : State) (wanted : Nat) : Except Defect State :=
  match state.input.load? wanted with
  | some input => .ok { state with input }
  | none => .error .unexpectedEnd

/-- Take bits. -/
def State.take (state : State) (wanted : Nat) : Except Defect (Nat × State) :=
  match state.input.take? wanted with
  | some (bits, input) => .ok (bits, { state with input })
  | none => .error .unexpectedEnd

/-- The longest code word. -/
def longestWord : Nat := 15

/-- Look a code word up until all of its bits are at hand. -/
def State.settle (code : PrefixCode) : Nat → State → Except Defect (Nat × State)
  | 0, state => .error state.corrupt
  | bound + 1, state =>
      match code.find? state.input.buffer with
      | none => .error state.corrupt
      | some (symbol, length) =>
          if length ≤ state.input.count then
            .ok (symbol, { state with input := state.input.drop length })
          else do settle code bound (← state.load length)

/-- Take a symbol. -/
def State.symbol (state : State) (code : PrefixCode) : Except Defect (Nat × State) := do
  (← state.load code.lookahead).settle code longestWord

/-- Base and extra bits of the copy lengths. -/
def lengthTable : Array (Nat × Nat) :=
  #[(3, 0), (4, 0), (5, 0), (6, 0), (7, 0), (8, 0), (9, 0), (10, 0), (11, 1), (13, 1), (15, 1),
    (17, 1), (19, 2), (23, 2), (27, 2), (31, 2), (35, 3), (43, 3), (51, 3), (59, 3), (67, 4),
    (83, 4), (99, 4), (115, 4), (131, 5), (163, 5), (195, 5), (227, 5), (258, 0)]

/-- Base and extra bits of the copy distances. -/
def distanceTable : Array (Nat × Nat) :=
  #[(1, 0), (2, 0), (3, 0), (4, 0), (5, 1), (7, 1), (9, 2), (13, 2), (17, 3), (25, 3), (33, 4),
    (49, 4), (65, 5), (97, 5), (129, 6), (193, 6), (257, 7), (385, 7), (513, 8), (769, 8),
    (1025, 9), (1537, 9), (2049, 10), (3073, 10), (4097, 11), (6145, 11), (8193, 12),
    (12289, 12), (16385, 13), (24577, 13)]

/-- Read a value given by a table entry with extra bits. -/
def extended (table : Array (Nat × Nat)) (symbol : Nat) (state : State) :
    Except Defect (Nat × State) :=
  match table[symbol]? with
  | none => .error state.corrupt
  | some (base, extra) => do
      let (bits, state) ← state.take extra
      return (base + bits, state)

/-- Decode symbols until the end of a block. -/
def symbols (literals distances : PrefixCode) : Nat → State → Except Defect State
  | 0, state => .error state.corrupt
  | bound + 1, state => do
      let (symbol, state) ← state.symbol literals
      if symbol < 256 then
        symbols literals distances bound
          { state with output := state.output.push (UInt8.ofNat symbol) }
      else if symbol == 256 then return state
      else
        let (length, state) ← extended lengthTable (symbol - 257) state
        let (distanceSymbol, state) ← state.symbol distances
        let (distance, state) ← extended distanceTable distanceSymbol state
        if state.output.size < distance then throw state.corrupt
        else
          symbols literals distances bound
            { state with output := copyBack distance length state.output }

/-- Code word lengths of the fixed code for literals. -/
def fixedLiterals : List Nat :=
  List.replicate 144 8 ++ List.replicate 112 9 ++ List.replicate 24 7 ++ List.replicate 8 8

/-- Code word lengths of the fixed code for distances. -/
def fixedDistances : List Nat :=
  List.replicate 32 5

/-- The order in which the lengths of the length code are sent. -/
def lengthOrder : List Nat :=
  [16, 17, 18, 0, 8, 7, 9, 6, 10, 5, 11, 4, 12, 3, 13, 2, 14, 1, 15]

/-- Read a number of three-bit lengths. -/
def shortLengths : Nat → State → List Nat → Except Defect (List Nat × State)
  | 0, state, done => .ok (done.reverse, state)
  | count + 1, state, done => do
      let (length, state) ← state.take 3
      shortLengths count state (length :: done)

/-- Read code word lengths, some of them repeated; `done` is in reverse. -/
def codeLengths (code : PrefixCode) (wanted : Nat) : Nat → State → List Nat →
    Except Defect (List Nat × State)
  | 0, state, done =>
      if done.length = wanted then .ok (done.reverse, state) else .error state.corrupt
  | bound + 1, state, done =>
      if done.length = wanted then .ok (done.reverse, state)
      else if wanted < done.length then .error state.corrupt
      else do
        let (symbol, state) ← state.symbol code
        if symbol < 16 then codeLengths code wanted bound state (symbol :: done)
        else if symbol == 16 then
          match done with
          | [] => throw state.corrupt
          | last :: _ =>
              let (extra, state) ← state.take 2
              codeLengths code wanted bound state (List.replicate (3 + extra) last ++ done)
        else if symbol == 17 then
          let (extra, state) ← state.take 3
          codeLengths code wanted bound state (List.replicate (3 + extra) 0 ++ done)
        else if symbol == 18 then
          let (extra, state) ← state.take 7
          codeLengths code wanted bound state (List.replicate (11 + extra) 0 ++ done)
        else throw .unexpectedLengthCode

/-- The least number of bits that follow a block which is not the last one. -/
def leastBlock : Nat := 10

/--
The code for the literals of a block: as many bits are brought to hand as the end of the block
needs, and those of the next block if there is one.
-/
def literalCode (lengths : List Nat) (isLast : Bool) : PrefixCode :=
  let code := PrefixCode.ofLengths lengths
  let least := max code.lookahead (lengths.getD 256 0)
  { code with lookahead := if isLast then least else least + leastBlock }

/-- Read the two codes of a block that brings its own. -/
def dynamicCodes (isLast : Bool) (state : State) : Except Defect State := do
  let (literalBits, state) ← state.take 5
  let (distanceBits, state) ← state.take 5
  let (lengthBits, state) ← state.take 4
  let literalCount := literalBits + 257
  let distanceCount := distanceBits + 1
  if 286 < literalCount || 30 < distanceCount then throw state.corrupt
  let (short, state) ← shortLengths (lengthBits + 4) state []
  let sent := lengthOrder.zip short
  let lengths := (List.range 19).map fun symbol => (sent.lookup symbol).getD 0
  let lengthCode := PrefixCode.ofLengths lengths
  if !lengthCode.isUsable then throw state.corrupt
  let lengthCode := lengthCode.orElse state.codes.literals
  let wanted := literalCount + distanceCount
  let (all, state) ← codeLengths lengthCode wanted wanted state []
  let literals := literalCode (all.take literalCount) isLast
  let distances := PrefixCode.ofLengths (all.drop literalCount)
  if !literals.isUsable || !distances.isUsable then throw state.corrupt
  let literals :=
    if literals.counts.isEmpty then
      { literals.orElse lengthCode with lookahead := if isLast then 0 else leastBlock }
    else literals
  return { state with codes := ⟨literals, distances.orElse state.codes.distances⟩ }

/--
Copy a stored block.  Its length starts at the next whole byte; bytes that are at hand already are
counted once more.
-/
def stored (state : State) : Except Defect State := do
  let atHand := state.input.count / 8
  let bytes := littleEndian atHand (state.input.drop (state.input.count % 8)).buffer ++
    state.input.bytes
  if bytes.length < 4 then throw .unexpectedEnd
  let length := ofLittleEndian (bytes.take 2)
  let inverse := ofLittleEndian ((bytes.drop 2).take 2)
  let body := bytes.drop 4
  let state := { state with input := ⟨body, 0, 0⟩, total := state.total + atHand }
  if length + inverse ≠ 65535 then throw state.corrupt
  if body.length < length then throw .unexpectedEnd
  return { state with
    input := ⟨body.drop length, 0, 0⟩
    output := state.output ++ (body.take length).toArray }

/-- Decode the symbols of a block with the codes read last. -/
def coded (state : State) : Except Defect State :=
  let room := 8 * state.input.bytes.length + state.input.count + 1
  symbols state.codes.literals state.codes.distances room state

/-- Decode the symbols of a block with the fixed codes. -/
def codedFixed (state : State) : Except Defect State :=
  let room := 8 * state.input.bytes.length + state.input.count + 1
  symbols (.ofLengths fixedLiterals) (.ofLengths fixedDistances) room state

/-- Decode blocks until the last one. -/
def blocks : Nat → State → Except Defect State
  | 0, state => .error state.corrupt
  | bound + 1, state => do
      let (last, state) ← state.take 1
      let (kind, state) ← state.take 2
      let state ←
        if kind == 0 then stored state
        else if kind == 1 then codedFixed state
        else if kind == 2 then
          match dynamicCodes (last == 1) state with
          | .ok state => coded state
          | .error defect => throw defect
        else throw state.corrupt
      if last == 1 then return state else blocks bound state

end Inflate

/-- A decoded deflate stream: its content, what follows it, and the codes read last. -/
structure Inflated where
  content : Text
  rest : Text
  codes : Inflate.Codes

/-- Decode a deflate stream at the front of a text. -/
def inflate (codes : Inflate.Codes) (text : Text) : Except Defect Inflated := do
  let start : Inflate.State :=
    { input := ⟨text, 0, 0⟩, total := text.length, codes }
  let final ← Inflate.blocks (8 * text.length + 1) start
  return ⟨final.output.toList, final.input.bytes, final.codes⟩

end LittleScript.Compression
