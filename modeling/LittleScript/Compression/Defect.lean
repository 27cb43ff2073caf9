import LittleScript.Text

namespace LittleScript.Compression

/-!
# What can be wrong with a compressed file

The causes are shared by the formats; each has one wording.
-/

/-- Why a compressed text cannot be read. -/
inductive Defect where
  | endOfInput
  | unexpectedEnd
  /-- A deflate stream breaks the rules before an offset. -/
  | corrupt (offset : Nat)
  | unexpectedLengthCode
  | invalidHeader
  | invalidChecksum
  | unknownFormat
  | reservedHeaderBit
  | windowExceeded
  | contentTooLarge
  | unknownDictionary
  | reservedBlock
  | blockTooLarge
  | blockTooSmall
  | blockNotUsedUp
  | frameTooLong
  | frameSizeMismatch
  | contentCheckFailed
  /-- Bits to be read from the end are not there at all. -/
  | noStream
  /-- Bits to be read from the end have no mark where they end. -/
  | unmarkedStream
  /-- A description is shorter than any can be. -/
  | descriptionTooShort
  | tableTooLarge
  | symbolTooLarge
  | tooFewSymbols (count : Nat)
  | tooManySymbols (count : Nat)
  /-- The symbols own too few cells of a table; one is always left over. -/
  | cellsLeft (count : Nat)
  | bitsMissing (used : Nat)
  /-- One symbol owns every cell of a table. -/
  | soleSymbol
  | weightsTooShort
  | packedWeightsTooShort (wanted : Nat) (found : Nat)
  | packedWeights (defect : Defect)
  | weightsUnfinished
  | tooManyWeights
  | weightTooLarge
  | weightsZero
  | codeTooDeep
  | lastWeightUneven
  | leastWeightsUneven
  /-- The code of the block before is to be used, and there is none. -/
  | noLiteralCode
  | literalsExceeded
  | literalCountMismatch (wanted : Nat) (found : Nat)
  | streamsTruncated
  | streamTooLong (stage : Nat)
  | streamTooShort (stream : Nat) (found : Nat) (wanted : Nat)
  | reservedModes
  | singleSymbolTooLarge (symbol : Nat) (count : Nat)
  | entryTooLarge (index : Nat) (symbol : Nat) (count : Nat)
  /-- The table of the block before is to be used, and there is none. -/
  | noTable (field : String)
  | tooFewLiterals (wanted : Nat) (found : Nat)
  | outputTooLarge (limit : Nat)
  | bitsLeft (count : Nat)
  | matchTooFar (distance : Nat) (reach : Nat)
  deriving Repr, DecidableEq

/-- The wording of a defect. -/
def Defect.wording : Defect → String
  | .endOfInput => "EOF"
  | .unexpectedEnd => "unexpected EOF"
  | .corrupt offset => s!"flate: corrupt input before offset {offset}"
  | .unexpectedLengthCode => "flate: internal error: unexpected length code"
  | .invalidHeader => "gzip: invalid header"
  | .invalidChecksum => "gzip: invalid checksum"
  | .unknownFormat => "invalid input: magic number mismatch"
  | .reservedHeaderBit => "reserved bit set on frame header"
  | .windowExceeded => "window size exceeded"
  | .contentTooLarge => "decompressed size exceeds configured limit"
  | .unknownDictionary => "unknown dictionary"
  | .reservedBlock => "invalid input: reserved block type encountered"
  | .blockTooLarge => "invalid input: compressed size too big"
  | .blockTooSmall => "block too small"
  | .blockNotUsedUp => "unexpected block size"
  | .frameTooLong => "frame size exceeded"
  | .frameSizeMismatch => "frame size does not match size on stream"
  | .contentCheckFailed => "CRC check failed"
  | .noStream => "corrupt stream: too short"
  | .unmarkedStream => "corrupt stream, did not find end of stream"
  | .descriptionTooShort => "input too small"
  | .tableTooLarge => "tableLog too large"
  | .symbolTooLarge => "maxSymbolValue too small"
  | .tooFewSymbols count => s!"symbolLen ({count}) too small"
  | .tooManySymbols count => s!"symbolLen ({count}) too big"
  | .cellsLeft count => s!"corruption detected (remaining {count} != 1)"
  | .bitsMissing used => s!"corruption detected (bitCount {used} > 32)"
  | .soleSymbol => "newState (0) == oldState (0) and no bits"
  | .weightsTooShort => "input too small for table"
  | .packedWeightsTooShort wanted found =>
      s!"input too small for table, want {wanted} bytes, have {found}"
  | .packedWeights defect => "fse decompress returned: " ++ defect.wording
  | .weightsUnfinished => "output size (256) > DecompressLimit (255)"
  | .tooManyWeights => "corrupt input: output table too large"
  | .weightTooLarge => "corrupt input: weight too large"
  | .weightsZero => "corrupt input: weights zero"
  | .codeTooDeep => "corrupt input: tableLog too big"
  | .lastWeightUneven => "corrupt input: last value not power of two"
  | .leastWeightsUneven => "corrupt input: min elt size, even check failed "
  | .noLiteralCode => "literal block was treeless, but no history was defined"
  | .literalsExceeded => "maximum output size exceeded"
  | .literalCountMismatch wanted found =>
      s!"literal output size mismatch want {wanted}, got {found}"
  | .streamsTruncated => "truncated input (or invalid offset)"
  | .streamTooLong stage => s!"corruption detected: stream overrun {stage}"
  | .streamTooShort stream found wanted =>
      s!"corruption detected: short output block {stream}, end {found} != {wanted}"
  | .reservedModes => "corrupt block: reserved bits not zero"
  | .singleSymbolTooLarge symbol count => s!"rle symbol {symbol} >= max {count}"
  | .entryTooLarge index symbol count =>
      s!"invalid decoding table entry {index}, symbol {symbol} >= max ({count})"
  | .noTable field => field ++ ":sequence decoder not defined"
  | .tooFewLiterals wanted found =>
      s!"unexpected literal count, want {wanted} bytes, but only {found} is available"
  | .outputTooLarge limit => s!"output bigger than max block size ({limit})"
  | .bitsLeft count => s!"{count} extra bits on block, should be 0"
  | .matchTooFar distance reach =>
      s!"match offset ({distance}) bigger than current history ({reach})"

/-- The wording of a defect as a text. -/
def Defect.message (defect : Defect) : Text :=
  Text.ofString defect.wording

end LittleScript.Compression
