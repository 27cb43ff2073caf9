import LittleScript.Compression.Zstd.ContentHash
import LittleScript.Compression.Zstd.Literals
import LittleScript.Compression.Zstd.Sequences

namespace LittleScript.Compression.Zstd

/-!
# Zstandard files

A file is a sequence of frames, each a header and blocks; some frames are to be skipped.  A text is
written as one frame of raw blocks, and the empty text as no frame at all.
-/

/-- The first four bytes of a frame. -/
def magic : Text := [0x28, 0xb5, 0x2f, 0xfd]

/-- The greatest size of a block. -/
def blockLimit : Nat := 131072

/-- The least and the greatest window that a frame may ask for. -/
def windowLimits : Nat × Nat := (1024, 536870912)

/-- The greatest content that a frame may announce. -/
def contentLimit : Nat := 68719476736

/-- Cut a text into raw blocks. -/
def rawBlocks : Nat → Text → Text
  | 0, _ => []
  | bound + 1, text =>
      let block := text.take blockLimit
      let rest := text.drop blockLimit
      let last := if rest.isEmpty then 1 else 0
      let head := littleEndian 3 (block.length * 8 + last)
      if rest.isEmpty then head ++ block else head ++ block ++ rawBlocks bound rest

/-- A text as a file of one frame. -/
def write (text : Text) : Text :=
  if text.isEmpty then []
  else magic ++ 0xe0 :: littleEndian 8 text.length ++
    rawBlocks (text.length / blockLimit + 1) text

/-- What a frame header announces. -/
structure Header where
  window : Nat
  contentSize : Option Nat
  hasChecksum : Bool
  deriving Repr, DecidableEq

/-- Take a field of some bytes as a number. -/
def takeField (width : Nat) (text : Text) : Except Defect (Nat × Text) :=
  if text.length < width then .error .unexpectedEnd
  else .ok (ofLittleEndian (text.take width), text.drop width)

/-- The window that its byte in the header stands for. -/
def windowOf (byte : Nat) : Nat :=
  let base := Nat.pow 2 (10 + byte / 8)
  base + base / 8 * (byte % 8)

/-- Read a frame header after its magic number. -/
def readHeader (text : Text) : Except Defect (Header × Text) := do
  let (flags, text) ← takeField 1 text
  let single := flags / 32 % 2 == 1
  if flags / 8 % 2 == 1 then throw .reservedHeaderBit
  let (windowByte, text) ← if single then pure (0, text) else takeField 1 text
  let (dictionary, text) ← takeField ([0, 1, 2, 4].getD (flags % 4) 0) text
  let sizeWidth := [if single then 1 else 0, 2, 4, 8].getD (flags / 64) 0
  let (size, text) ← takeField sizeWidth text
  let contentSize :=
    match sizeWidth with
    | 0 => none
    | 2 => some (size + 256)
    | _ => some size
  let window :=
    if single then max (contentSize.getD 0) windowLimits.1 else windowOf windowByte
  if single then
    if contentLimit < window then throw .contentTooLarge
  else if windowLimits.2 < window then throw .windowExceeded
  if dictionary ≠ 0 then throw .unknownDictionary
  if windowLimits.2 < window then throw .contentTooLarge
  return (⟨window, contentSize, flags / 4 % 2 == 1⟩, text)

/-- A frame whose blocks are being decoded: its content so far and what later blocks may use. -/
structure Progress where
  content : Array UInt8 := #[]
  literalCode : Option LiteralCode := none
  tables : Option Tables := none
  recent : Recent := {}

/-- Decode a compressed block. -/
def Progress.unpack (progress : Progress) (window : Nat) (block : Text) :
    Except Defect Progress := do
  let limit := min window blockLimit
  let (literals, literalCode, rest) ← readLiterals limit progress.literalCode block
  let ⟨sequences, tables, recent⟩ ←
    readSequences limit literals.size progress.tables progress.recent rest
  let content ← execute literals window progress.content.size sequences 0 progress.content
  return ⟨content, literalCode, tables, recent⟩

/-- What a block holds. -/
inductive Body where
  | raw (text : Text)
  | repeated (byte : UInt8) (count : Nat)
  | packed (text : Text)
  deriving Repr, DecidableEq

/-- Read one block; the text starts after its head. -/
def readBody (window kind size : Nat) (text : Text) : Except Defect (Body × Text) := do
  let limit := min window blockLimit
  match kind with
  | 0 =>
      if limit < size then throw .windowExceeded
      if text.length < size then throw .unexpectedEnd
      return (.raw (text.take size), text.drop size)
  | 1 =>
      if limit < size then throw .windowExceeded
      match text with
      | [] => throw .unexpectedEnd
      | byte :: rest => return (.repeated byte size, rest)
  | 2 =>
      if limit < size then throw .blockTooLarge
      if size < 2 then throw .blockTooSmall
      if text.length < size then throw .unexpectedEnd
      return (.packed (text.take size), text.drop size)
  | _ => throw .reservedBlock

/-- Add the content of a block. -/
def Progress.add (progress : Progress) (window : Nat) : Body → Except Defect Progress
  | .raw text => .ok { progress with content := progress.content ++ text.toArray }
  | .repeated byte count =>
      .ok { progress with content := progress.content ++ Array.replicate count byte }
  | .packed text => progress.unpack window text

/-- The width of the check value behind a frame. -/
def checkWidth : Nat := 4

/-- The content must have the size that the header announces, and the check value. -/
def Header.verify (header : Header) (content : Array UInt8) (text : Text) :
    Except Defect Text := do
  if header.contentSize.any (· != content.size) then throw .frameSizeMismatch
  if !header.hasChecksum then return text
  let (expected, text) ← takeField checkWidth text
  if (contentHash content.toList).toNat % 0x100000000 ≠ expected then throw .contentCheckFailed
  return text

/-- Whether the check value is missing behind the last block. -/
def Header.lacksCheck (header : Header) (text : Text) : Bool :=
  header.hasChecksum && text.length < checkWidth

/--
Decode the blocks of a frame.  That the check value is missing is found before the last block is
decoded, and before what is wrong with the head of a block.
-/
def blocks (header : Header) : Nat → Text → Progress → Except Defect (Array UInt8 × Text)
  | 0, _, _ => .error .unexpectedEnd
  | bound + 1, text, progress => do
      let (head, text) ← takeField 3 text
      let isLast := head % 2 == 1
      match readBody header.window (head / 2 % 4) (head / 8) text with
      | .error defect => throw (if header.lacksCheck text then .unexpectedEnd else defect)
      | .ok (body, text) =>
          if isLast && header.lacksCheck text then throw .unexpectedEnd
          let progress ← progress.add header.window body
          if header.contentSize.any (· < progress.content.size) then throw .frameTooLong
          if isLast then return (progress.content, ← header.verify progress.content text)
          else blocks header bound text progress

/-- Read a frame after its magic number. -/
def frame (text : Text) : Except Defect (Array UInt8 × Text) := do
  let (header, text) ← readHeader text
  blocks header text.length.succ text {}

/-- Read frames until the end of the file. -/
def frames : Nat → Text → Array UInt8 → Except Defect (Array UInt8)
  | 0, _, output => .ok output
  | bound + 1, text, output => do
      if text.isEmpty then return output
      if text.length < 4 then throw .unexpectedEnd
      if (text.drop 1).take 3 == [0x2a, 0x4d, 0x18] && (text.getD 0 0).toNat / 16 == 5 then
        let (length, rest) ← takeField 4 (text.drop 4)
        if rest.length < length then throw .unexpectedEnd
        frames bound (rest.drop length) output
      else if !magic.isPrefixOf text then throw .unknownFormat
      else
        let (content, rest) ← frame (text.drop 4)
        frames bound rest (output ++ content)

/-- The text of a Zstandard file. -/
def read (file : Text) : Except Defect Text := do
  return (← frames file.length.succ file #[]).toList

end LittleScript.Compression.Zstd
