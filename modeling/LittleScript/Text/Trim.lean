import LittleScript.Text.Rune

namespace LittleScript.Text

/-!
# Trimming

Characters are removed from one end of a text, or from both, as long as a test accepts them.  An
ill-formed byte is tested as the replacement character.
-/

/-- Drop characters that `accept` admits from the front of a text. -/
def trimFront (accept : Rune → Bool) : Nat → Text → Text
  | 0, text => text
  | bound + 1, text =>
      match Rune.first? text with
      | some rune => if accept rune then trimFront accept bound (text.drop rune.size) else text
      | none => text

/-- Drop characters that `accept` admits from the end of a text given in reverse. -/
def trimBack (accept : Rune → Bool) : Nat → Text → Text
  | 0, reversed => reversed
  | bound + 1, reversed =>
      match Rune.last? reversed with
      | some rune =>
          if accept rune then trimBack accept bound (reversed.drop rune.size) else reversed
      | none => reversed

/-- Drop the characters that `accept` admits from the left end. -/
def trimLeftIf (accept : Rune → Bool) (text : Text) : Text :=
  trimFront accept text.length text

/-- Drop the characters that `accept` admits from the right end. -/
def trimRightIf (accept : Rune → Bool) (text : Text) : Text :=
  (trimBack accept text.length text.reverse).reverse

/-- Whether a character occurs in a set written as a text. -/
def holds (set : Text) (rune : Rune) : Bool :=
  (Rune.decode set).any fun member => member.code == rune.code

/-- Drop the characters of `set` from the left end. -/
def trimLeft (set text : Text) : Text :=
  trimLeftIf (holds set) text

/-- Drop the characters of `set` from the right end. -/
def trimRight (set text : Text) : Text :=
  trimRightIf (holds set) text

/-- Drop the characters of `set` from both ends. -/
def trim (set text : Text) : Text :=
  trimLeft set (trimRight set text)

/-- Drop blank characters of every script from both ends. -/
def strip (text : Text) : Text :=
  trimRightIf Rune.isBlank (trimLeftIf Rune.isBlank text)

/-- Collect maximal runs of characters that are not blank; `field` and `done` are in reverse. -/
def fieldsFrom : List (Rune × Text) → Text → List Text → List Text
  | [], field, done => (if field.isEmpty then done else field.reverse :: done).reverse
  | (rune, bytes) :: rest, field, done =>
      if rune.isBlank then
        fieldsFrom rest [] (if field.isEmpty then done else field.reverse :: done)
      else fieldsFrom rest (bytes.reverse ++ field) done

/-- Pair every character of a text with its bytes. -/
def withBytes : List Rune → Text → List (Rune × Text) → List (Rune × Text)
  | [], _, done => done.reverse
  | rune :: rest, text, done =>
      withBytes rest (text.drop rune.size) ((rune, text.take rune.size) :: done)

/-- The maximal runs of characters that are not blank. -/
def fields (text : Text) : List Text :=
  fieldsFrom (withBytes (Rune.decode text) text []) [] []

end LittleScript.Text
