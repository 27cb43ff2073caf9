import LittleScript.Compression.Checksum
import LittleScript.Compression.Inflate

namespace LittleScript.Compression.Gzip

/-!
# Gzip files

A file is a sequence of members, each a header, a deflate stream and a trailer with check value and
length.  Texts are written as one member of stored blocks.
-/

/-- The first two bytes of every member. -/
def magic : Text := [0x1f, 0x8b]

/-- Cut a text into stored blocks of at most 65535 bytes. -/
def storedBlocks : Nat → Text → Text
  | 0, _ => []
  | bound + 1, text =>
      let block := text.take 65535
      let rest := text.drop 65535
      let last : UInt8 := if rest.isEmpty then 1 else 0
      let head := last :: (littleEndian 2 block.length ++ littleEndian 2 (65535 - block.length))
      if rest.isEmpty then head ++ block else head ++ block ++ storedBlocks bound rest

/-- A text as a gzip file. -/
def write (text : Text) : Text :=
  magic ++ [8, 0, 0, 0, 0, 0, 0, 0xff] ++ storedBlocks (text.length / 65535 + 1) text ++
    littleEndian 4 (checksum text).toNat ++ littleEndian 4 (text.length % 0x100000000)

/-- The room for a text in a header, its closing zero byte included. -/
def stringLimit : Nat := 512

/-- Skip a text that a zero byte ends; a file that ends inside it is taken to end before. -/
def skipString (text : Text) : Except Defect Text :=
  match text.dropWhile (· != 0) with
  | [] => .error (if text.length < stringLimit then .endOfInput else .invalidHeader)
  | _ :: rest =>
      if text.length - rest.length ≤ stringLimit then .ok rest else .error .invalidHeader

/-- Skip a header; a file that ends before it has no further member. -/
def skipHeader (text : Text) : Except Defect Text := do
  if text.isEmpty then throw .endOfInput
  if text.length < 10 then throw .unexpectedEnd
  if !(magic ++ [8]).isPrefixOf text then throw .invalidHeader
  let flags := (text.getD 3 0).toNat
  if 32 ≤ flags then throw .invalidHeader
  let rest := text.drop 10
  let rest ←
    if flags / 4 % 2 == 1 then
      let length := ofLittleEndian (rest.take 2)
      if rest.length < 2 + length then throw .unexpectedEnd else pure (rest.drop (2 + length))
    else pure rest
  let rest ← if flags / 8 % 2 == 1 then skipString rest else pure rest
  let rest ← if flags / 16 % 2 == 1 then skipString rest else pure rest
  if flags / 2 % 2 == 1 then
    if rest.length < 2 then throw .unexpectedEnd
    let header := text.take (text.length - rest.length)
    if ofLittleEndian (rest.take 2) == (checksum header).toNat % 65536 then return rest.drop 2
    else throw .invalidHeader
  else return rest

/-- Read the members of a file, with the prefix codes of the member before. -/
def members : Nat → Inflate.Codes → Text → List Text → Except Defect (List Text)
  | 0, _, _, done => .ok done.reverse
  | bound + 1, codes, text, done =>
      match skipHeader text, done with
      | .error .endOfInput, _ :: _ => .ok done.reverse
      | .error defect, _ => .error defect
      | .ok body, _ => do
          let ⟨content, rest, codes⟩ ← inflate codes body
          if rest.length < 8 then throw .unexpectedEnd
          let expected := ofLittleEndian (rest.take 4)
          let length := ofLittleEndian ((rest.drop 4).take 4)
          if (checksum content).toNat ≠ expected || content.length % 0x100000000 ≠ length then
            throw .invalidChecksum
          members bound codes (rest.drop 8) (content :: done)

/-- The text of a gzip file. -/
def read (file : Text) : Except Defect Text := do
  return (← members file.length.succ {} file []).flatten

end LittleScript.Compression.Gzip
