import LittleScript.Text.Rune

namespace LittleScript

/-!
# Escape sequences of terminals

A terminal reads bytes one at a time.  Between the characters that it shows stand sequences and
strings that control it; this is how far such a sequence has come, and what the next byte does.
-/

/-- Where a terminal stands in what it reads. -/
inductive Escape where
  /-- Outside of every sequence. -/
  | ground
  /-- At the first byte of a character beyond ASCII. -/
  | character
  /-- Behind the escape byte. -/
  | begun
  | intermediate
  | controlEntry
  | controlParameter
  | controlIntermediate
  | deviceEntry
  | deviceParameter
  | deviceIntermediate
  /-- In the text of a device control. -/
  | deviceText
  /-- In a command to the system around the terminal. -/
  | systemText
  /-- In a string that the terminal passes over. -/
  | ignoredText
  deriving Repr, DecidableEq

namespace Escape

/-- Whether a byte lies in a range. -/
def between (least greatest byte : UInt8) : Bool :=
  least ≤ byte && byte ≤ greatest

/-- Where the bytes lead that mean the same everywhere. -/
def anywhere? (byte : UInt8) : Option Escape :=
  if byte == 0x1b then some .begun
  else if byte == 0x18 || byte == 0x1a then some .ground
  else if byte < 0x80 then none
  else if byte == 0x90 then some .deviceEntry
  else if byte == 0x9b then some .controlEntry
  else if byte == 0x9d then some .systemText
  else if byte == 0x98 || byte == 0x9e || byte == 0x9f then some .ignoredText
  else if between 0xc2 0xf4 byte then some .character
  else some .ground

/-- Where a byte leads that follows the escape byte. -/
def afterEscape (byte : UInt8) : Escape :=
  if byte < 0x20 || byte == 0x7f then .begun
  else if byte < 0x30 then .intermediate
  else if byte == 0x50 then .deviceEntry
  else if byte == 0x5b then .controlEntry
  else if byte == 0x5d then .systemText
  else if byte == 0x58 || byte == 0x5e || byte == 0x5f then .ignoredText
  else .ground

/-- Where an ASCII byte leads at the beginning of a device control. -/
def afterDevice (byte : UInt8) : Escape :=
  if between 0x08 0x0d byte then .deviceText
  else if byte < 0x20 || byte == 0x7f then .deviceEntry
  else if byte < 0x30 then .deviceIntermediate
  else if byte < 0x40 then .deviceParameter
  else .deviceText

/-- Where an ASCII byte leads that has no meaning of its own. -/
def within (state : Escape) (byte : UInt8) : Escape :=
  let passedOver := byte < 0x20 || byte == 0x7f
  match state with
  | .ground | .character => .ground
  | .begun => afterEscape byte
  | .intermediate => if passedOver || byte < 0x30 then .intermediate else .ground
  | .controlEntry | .controlParameter =>
      if passedOver then state
      else if byte < 0x30 then .controlIntermediate
      else if byte < 0x40 then .controlParameter
      else .ground
  | .controlIntermediate => if passedOver || byte < 0x30 then .controlIntermediate else .ground
  | .deviceEntry => afterDevice byte
  | .deviceParameter =>
      if passedOver then .deviceParameter
      else if byte < 0x30 then .deviceIntermediate
      else if byte < 0x40 then .deviceParameter
      else .deviceText
  | .deviceIntermediate =>
      if passedOver || byte < 0x30 then .deviceIntermediate else .deviceText
  | .deviceText => .deviceText
  | .systemText => if byte == 0x07 then .ground else .systemText
  | .ignoredText => .ignoredText

/-- Whether a state takes every byte beyond ASCII but the end of a string into its text. -/
def keepsBytes : Escape → Bool
  | .deviceText | .systemText => true
  | _ => false

/-- Where a byte leads; the entry of a device control takes an escape byte for text. -/
def next (state : Escape) (byte : UInt8) : Escape :=
  if state.keepsBytes && 0x80 ≤ byte && byte != 0x9c then state
  else if state == .deviceEntry && byte == 0x1b then .deviceText
  else
    match anywhere? byte with
    | some state => state
    | none => state.within byte

/-- Whether a byte shows as a character of one column. -/
def shows (state : Escape) (byte : UInt8) : Bool :=
  state == .ground && between 0x20 0x7e byte

end Escape

end LittleScript
