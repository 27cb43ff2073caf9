import LittleScript.Compression.Zstd.LiteralCode

namespace LittleScript.Compression.Zstd

/-!
# Literals of a block

The bytes that a block does not copy from before stand together at its beginning: as they are, as
one byte repeated, or in a prefix code, in one stream or in four.
-/

namespace LiteralCode

/-- The fewest bytes that one stream is decoded into. -/
def leastSingle : Nat := 4

/--
Decode bytes into at most `room` places until no bits are left.  What is left of them is counted
modulo 256 once a code word has gone past their end; behind the end there are only zeros.
-/
def decodeFrom (code : LiteralCode) : Nat → BackwardBits → Nat → Array UInt8 →
    Except Defect (Array UInt8)
  | room, bits, left, done =>
      if left == 0 then .ok done
      else
        match room with
        | 0 => .error .literalsExceeded
        | room + 1 =>
            let (byte, width) := code.next bits
            let left := if width ≤ left then left - width else left + 256 - width
            decodeFrom code room (bits.drop width) left (done.push byte)

/-- Decode one stream of a given number of bytes. -/
def decodeOne (code : LiteralCode) (count : Nat) (text : Text) :
    Except Defect (Array UInt8) := do
  let bits ← BackwardBits.ofText text
  if count < leastSingle then throw .literalsExceeded
  let literals ← code.decodeFrom count bits bits.left #[]
  if literals.size ≠ count then throw (.literalCountMismatch count literals.size)
  return literals

/-- One of four streams: its bits, how many of its bytes are not loaded yet, and its output. -/
structure Lane where
  bits : BackwardBits
  unloaded : Nat
  done : Array UInt8 := #[]

namespace Lane

/-- How many bytes are loaded at first. -/
def firstLoad : Nat := 8

/-- How many bytes are loaded at once later. -/
def laterLoad : Nat := 4

/-- The lane of a text. -/
def ofText (text : Text) : Except Defect Lane := do
  return { bits := ← BackwardBits.ofText text, unloaded := text.length - firstLoad }

/-- How many bits are loaded. -/
def loaded (lane : Lane) : Nat :=
  lane.bits.left - 8 * lane.unloaded

/-- Load more if there are fewer than a number of bits. -/
def fill (lane : Lane) (least : Nat) : Lane :=
  if lane.loaded < least then { lane with unloaded := lane.unloaded - laterLoad } else lane

/-- Decode a byte. -/
def step (code : LiteralCode) (lane : Lane) : Lane :=
  let (byte, width) := code.next lane.bits
  { lane with bits := lane.bits.drop width, done := lane.done.push byte }

/-- Decode some bytes. -/
def steps (code : LiteralCode) : Nat → Lane → Lane
  | 0, lane => lane
  | count + 1, lane => steps code count (lane.step code)

/-- Whether another load is possible. -/
def isRich (lane : Lane) : Bool :=
  laterLoad ≤ lane.unloaded

end Lane

/-- How the bytes of the four streams are laid out. -/
structure Layout where
  total : Nat
  quarter : Nat
  deriving Repr, DecidableEq

/-- The layout of a number of bytes: the first three streams are of equal length. -/
def Layout.ofTotal (total : Nat) : Layout :=
  ⟨total, (total + 3) / 4⟩

/-- Decode a few bytes of every lane in turn, as long as all of them can be loaded again. -/
def shortRounds (code : LiteralCode) : Nat → List Lane → Nat → Except Defect (List Lane × Nat)
  | 0, lanes, count => .ok (lanes, count)
  | bound + 1, lanes, count =>
      if !lanes.all Lane.isRich then .ok (lanes, count)
      else if count + 4 = 256 then .error (.streamTooLong 1)
      else
        shortRounds code bound (lanes.map fun lane => (lane.fill 33).steps code 4) (count + 4)

/--
Decode a few bytes of every lane in turn, until a load leaves a lane poor or the first lane is
nearly full.
-/
def longRounds (code : LiteralCode) (layout : Layout) : Nat → List Lane → Nat →
    List Lane × Nat
  | 0, lanes, count => (lanes, count)
  | bound + 1, lanes, count =>
      let filled := lanes.map fun lane => lane.fill 32
      let isLast := layout.quarter - 4 ≤ count ||
        (lanes.zip filled).any fun (before, after) =>
          after.unloaded != before.unloaded && !after.isRich
      let width := if code.depth ≤ 8 then 4 else 2
      let after := filled.map fun lane => lane.steps code width
      if isLast then (after, count + width)
      else longRounds code layout bound after (count + width)

/-- Whether the streams are decoded in short rounds. -/
def isSmall (code : LiteralCode) (layout : Layout) : Bool :=
  code.depth ≤ 8 && layout.total < 800

/-- Decode the streams side by side; the number counts the bytes decoded of each of them. -/
def rounds (code : LiteralCode) (layout : Layout) (bound : Nat) (lanes : List Lane) :
    Except Defect (List Lane × Nat) := do
  if code.isSmall layout then
    let (lanes, count) ← code.shortRounds bound lanes 0
    if 0 < count && layout.total < 3 * layout.quarter + count then throw (.streamTooLong 3)
    return (lanes, count)
  else if layout.total ≤ 16 || !lanes.all Lane.isRich then return (lanes, 0)
  else return code.longRounds layout bound lanes 0

/-- Decode the rest of a lane into the places from `place` to `stop`; the result is the place. -/
def finishLane (code : LiteralCode) (isSmall : Bool) (stop : Nat) : Nat → Lane → Nat →
    Except Defect (Lane × Nat)
  | 0, lane, place => .ok (lane, place)
  | bound + 1, lane, place =>
      if lane.bits.left == 0 then .ok (lane, place)
      else if stop ≤ place then .error (.streamTooLong 4)
      else
        let width := (code.next lane.bits).2
        if lane.bits.left < width then
          .error (if isSmall then .unexpectedEnd else .streamTooLong 4)
        else finishLane code isSmall stop bound (lane.step code) (place + 1)

/-- Decode the rest of every lane; `index` counts the lanes before. -/
def finish (code : LiteralCode) (layout : Layout) (count : Nat) : Nat → List Lane →
    Except Defect (Array UInt8)
  | _, [] => .ok #[]
  | index, lane :: lanes => do
      let start := layout.quarter * index
      let stop := min (start + layout.quarter - count) (layout.total - count)
      let (lane, place) ←
        code.finishLane (code.isSmall layout) stop (lane.bits.left + 1) lane start
      if place ≠ stop then throw (.streamTooShort index place stop)
      return lane.done ++ (← finish code layout count (index + 1) lanes)

/-- Cut off streams whose lengths stand in front; the last one is what remains. -/
def cutStreams : List Nat → Text → Except Defect (List Lane)
  | [], text => do return [← Lane.ofText text]
  | length :: lengths, text => do
      if text.length ≤ length then throw .streamsTruncated
      let lane ← Lane.ofText (text.take length)
      return lane :: (← cutStreams lengths (text.drop length))

/-- Decode four streams; the lengths of the first three stand before them. -/
def decodeFour (code : LiteralCode) (count : Nat) (text : Text) :
    Except Defect (Array UInt8) := do
  if text.length < 10 then throw .descriptionTooShort
  let lengths := [0, 2, 4].map fun place => ofLittleEndian ((text.drop place).take 2)
  let lanes ← cutStreams lengths (text.drop 6)
  let layout := Layout.ofTotal count
  let (lanes, reached) ← code.rounds layout text.length lanes
  code.finish layout reached 0 lanes

end LiteralCode

/-- What the head of the literals says. -/
structure LiteralHead where
  size : Nat
  packedSize : Nat
  isSplit : Bool
  deriving Repr, DecidableEq

namespace LiteralHead

/-- Read a head of some bytes that holds one number after its four low bits. -/
def wide (width : Nat) (text : Text) : Except Defect (Nat × Text) :=
  if text.length < width then .error .blockTooSmall
  else .ok (ofLittleEndian (text.take width) / 16, text.drop width)

/-- Read the head of literals that are not coded; the first byte is given too. -/
def plain (head : Nat) (text : Text) : Except Defect (LiteralHead × Text) := do
  match head / 4 % 4 with
  | 1 =>
      let (size, rest) ← wide 2 text
      return (⟨size, 0, false⟩, rest)
  | 3 =>
      let (size, rest) ← wide 3 text
      return (⟨size, 0, false⟩, rest)
  | _ => return (⟨head / 8, 0, false⟩, text.drop 1)

/-- Read the head of coded literals; the first byte is given too. -/
def coded (head : Nat) (text : Text) : Except Defect (LiteralHead × Text) := do
  let (width, bits) := match head / 4 % 4 with
    | 2 => (4, 14)
    | 3 => (5, 18)
    | _ => (3, 10)
  let (sizes, rest) ← wide width text
  return (⟨sizes % Nat.pow 2 bits, sizes / Nat.pow 2 bits, head / 4 % 4 != 0⟩, rest)

end LiteralHead

/--
Read the literals of a block.  `known` is the code used last; the result has the code to be used
next and the rest of the block.
-/
def readLiterals (window : Nat) (known : Option LiteralCode) (text : Text) :
    Except Defect (Array UInt8 × Option LiteralCode × Text) := do
  if text.length < 2 then throw .blockTooSmall
  let head := (text.getD 0 0).toNat
  let kind := head % 4
  let (sizes, rest) ← if kind < 2 then LiteralHead.plain head text else LiteralHead.coded head text
  if window < sizes.size then throw .windowExceeded
  match kind with
  | 0 =>
      if rest.length < sizes.size then throw .blockTooSmall
      return ((rest.take sizes.size).toArray, known, rest.drop sizes.size)
  | 1 =>
      match rest with
      | [] => throw .blockTooSmall
      | byte :: rest => return (Array.replicate sizes.size byte, known, rest)
  | _ =>
      if rest.length < sizes.packedSize then throw .blockTooSmall
      let packed := rest.take sizes.packedSize
      let (code, body) ←
        match kind, known with
        | 2, _ => LiteralCode.read packed
        | _, some code => pure (code, packed)
        | _, none => throw .noLiteralCode
      let literals ←
        if sizes.isSplit then code.decodeFour sizes.size body
        else code.decodeOne sizes.size body
      return (literals, some code, rest.drop sizes.packedSize)

end LittleScript.Compression.Zstd
