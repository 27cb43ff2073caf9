import LittleScript.Repl.Layout

namespace LittleScript.Repl

/-!
# The input field

A field holds one line of characters, up to a limit, and a cursor before one of them or behind the
last.  Text that does not fit into the width of the field is scrolled so that the cursor shows.
Text comes in by keys; what a terminal passes on as pasted is left out.
-/

/-- The field: its characters, the cursor, its width in columns, and what of it shows. -/
structure InputField where
  characters : List Nat := []
  /-- How many characters stand before the cursor. -/
  cursor : Nat := 0
  width : Int := 60
  /-- How many characters are scrolled out on the left. -/
  hidden : Nat := 0
  /-- How many characters there are up to the last one that shows. -/
  visibleEnd : Nat := 0
  deriving Repr, DecidableEq

/-- The ways to move the cursor or to remove text at it. -/
inductive Edit where
  | forward
  | backward
  | wordForward
  | wordBackward
  | toStart
  | toEnd
  | removeForward
  | removeBackward
  | removeWordForward
  | removeWordBackward
  /-- Remove everything before the cursor. -/
  | removeBefore
  /-- Ask for suggestions, of which there are none. -/
  | suggest
  deriving Repr, DecidableEq

/-- The names of the keys that edit. -/
def Edit.names : List (Text × Edit) :=
  [("right", .forward), ("ctrl+f", .forward), ("left", .backward), ("ctrl+b", .backward),
    ("alt+right", .wordForward), ("ctrl+right", .wordForward), ("alt+f", .wordForward),
    ("alt+left", .wordBackward), ("ctrl+left", .wordBackward), ("alt+b", .wordBackward),
    ("home", .toStart), ("ctrl+a", .toStart), ("end", .toEnd), ("ctrl+e", .toEnd),
    ("delete", .removeForward), ("backspace", .removeBackward), ("ctrl+h", .removeBackward),
    ("alt+delete", .removeWordForward), ("alt+d", .removeWordForward),
    ("alt+backspace", .removeWordBackward), ("ctrl+w", .removeWordBackward),
    ("ctrl+u", .removeBefore), ("ctrl+n", .suggest), ("ctrl+p", .suggest)].map
    fun (name, edit) => (Text.ofString name, edit)

namespace InputField

/-- How many characters a field holds at most. -/
def limit : Nat := 2000

/-- The text of the field. -/
def text (field : InputField) : Text :=
  field.characters.flatMap Rune.encode

/-- What a character becomes in the field: line breaks and tabs are spaces, other controls go. -/
def admit? (code : Nat) : Option Nat :=
  if code == 0x0a || code == 0x0d || code == 0x09 then some 0x20
  else if code == Rune.replacement.code then none
  else if code < 0x20 || (0x7f ≤ code && code ≤ 0x9f) then none
  else some code

/-- The characters of a text that a field admits. -/
def admitted (text : Text) : List Nat :=
  (Rune.decode text).filterMap fun rune => admit? rune.code

/-- A character of the field with its size. -/
def runeOf (code : Nat) : Rune :=
  ⟨code, (Rune.encode code).length⟩

/-- How many columns characters take. -/
def columnsOf (characters : List Nat) : Nat :=
  Rune.columnsOf (characters.map runeOf)

/-- Count the characters behind the cursor that fit into a width and the cursor's own column. -/
def fittingBehind (width : Nat) : List Nat → Nat → Nat → Nat
  | [], _, count => count
  | code :: rest, used, count =>
      let next := used + (runeOf code).columnsAlone
      if used ≤ width && next ≤ width + 1 then fittingBehind width rest next (count + 1)
      else count

/--
Count the characters before the cursor that fit into a width; they come from the last one on, and
the first character of the text is not counted.
-/
def fittingBefore (width : Nat) : List Nat → Nat → Nat → Nat
  | [], _, count => count
  | [_], _, count => count
  | code :: rest, used, count =>
      let next := used + (runeOf code).columnsAlone
      if used < width && next ≤ width then fittingBefore width rest next (count + 1)
      else count

/-- Scroll so that the cursor shows. -/
def scroll (field : InputField) : InputField :=
  let width := field.width.toNat
  let visibleEnd := min field.visibleEnd field.characters.length
  if field.width ≤ 0 || columnsOf field.characters ≤ width then
    { field with hidden := 0, visibleEnd := field.characters.length }
  else if field.cursor < field.hidden then
    let fits := fittingBehind width (field.characters.drop field.cursor) 0 0
    { field with hidden := field.cursor, visibleEnd := field.cursor + fits }
  else if visibleEnd ≤ field.cursor then
    let fits := fittingBefore width (field.characters.take field.cursor).reverse 0 0
    { field with hidden := field.cursor - fits, visibleEnd := field.cursor }
  else { field with visibleEnd }

/-- Put the cursor behind a number of characters. -/
def moveTo (field : InputField) (place : Nat) : InputField :=
  scroll { field with cursor := min place field.characters.length }

/-- Put the cursor behind the last character. -/
def moveToEnd (field : InputField) : InputField :=
  field.moveTo field.characters.length

/--
Replace the text.  The cursor keeps its place if the text still reaches it, except that it goes
behind the text that comes into an empty field.
-/
def setText (field : InputField) (text : Text) : InputField :=
  let characters := (admitted text).take limit
  let follows := (field.cursor == 0 && field.characters.isEmpty) ||
    characters.length < field.cursor
  let cursor := if follows then characters.length else field.cursor
  scroll { field with characters, cursor }

/-- Add typed text at the cursor, as far as the limit allows. -/
def type (field : InputField) (text : Text) : InputField :=
  let added := (admitted text).take (limit - field.characters.length)
  scroll
    { field with
      characters :=
        field.characters.take field.cursor ++ added ++ field.characters.drop field.cursor
      cursor := field.cursor + added.length }

/-- How many characters the blanks at the front and the word behind them have. -/
def wordLength (characters : List Nat) : Nat :=
  let word := characters.dropWhile Rune.isBlankCode
  (characters.length - word.length) + (word.takeWhile fun code => !Rune.isBlankCode code).length

/-- Move the cursor forward by single characters. -/
def stepForward : Nat → InputField → InputField
  | 0, field => field
  | count + 1, field => stepForward count (field.moveTo (field.cursor + 1))

/-- Move the cursor backward by single characters. -/
def stepBackward : Nat → InputField → InputField
  | 0, field => field
  | count + 1, field => stepBackward count (field.moveTo (field.cursor - 1))

/-- Remove the characters between two places. -/
def remove (field : InputField) (start stop : Nat) : InputField :=
  { field with characters := field.characters.take start ++ field.characters.drop stop }

/--
Remove the word before the cursor.  The blank before the word stays unless it begins the text.
-/
def removeWordBackward (field : InputField) : InputField :=
  let start := field.cursor - wordLength (field.characters.take field.cursor).reverse
  let lowered := stepBackward (field.cursor - (start - 1)) field
  let kept := if 2 ≤ start then lowered.moveTo start else lowered
  kept.remove kept.cursor field.cursor

/-- Remove the character at the cursor and the word behind it. -/
def removeWordForward (field : InputField) : InputField :=
  if field.characters.length ≤ field.cursor then field
  else
    let length := 1 + wordLength (field.characters.drop (field.cursor + 1))
    let passed := stepForward length field
    (passed.remove field.cursor passed.cursor).moveTo field.cursor

/-- Carry out an edit. -/
def edit (field : InputField) : Edit → InputField
  | .forward => field.moveTo (field.cursor + 1)
  | .backward => field.moveTo (field.cursor - 1)
  | .wordForward =>
      scroll (stepForward (wordLength (field.characters.drop field.cursor)) field)
  | .wordBackward =>
      scroll (stepBackward (wordLength (field.characters.take field.cursor).reverse) field)
  | .toStart => field.moveTo 0
  | .toEnd => field.moveToEnd
  | .removeForward => scroll (field.remove field.cursor (field.cursor + 1))
  | .removeBackward =>
      (field.remove (field.cursor - 1) field.cursor).moveTo (field.cursor - 1)
  | .removeWordForward => scroll field.removeWordForward
  | .removeWordBackward => scroll field.removeWordBackward
  | .removeBefore => { field.remove 0 field.cursor with hidden := 0 }.moveTo 0
  | .suggest => scroll field

/-- The characters that show. -/
def visible (field : InputField) : List Nat :=
  (field.characters.take field.visibleEnd).drop field.hidden

/-- What shows in an empty field. -/
def placeholder : Text := Text.ofString "type a command..."

/-- Whether there is a column for the cursor of an empty field. -/
def hasRoom (field : InputField) : Bool :=
  !field.characters.isEmpty || 0 ≤ field.width

/-- The field as it shows: the cursor takes a column of its own behind the text. -/
def render (field : InputField) : Text :=
  let width := field.width.toNat
  if field.characters.isEmpty then
    placeholder.take (width + 1) ++ Layout.spaces (width + 1 - placeholder.length)
  else
    let padding := width - columnsOf field.visible
    let extra := if 0 < width && columnsOf field.visible ≤ width then 1 else 0
    let behind := field.visibleEnd ≤ field.cursor
    field.visible.flatMap Rune.encode ++ Layout.spaces (padding + if behind then 1 else extra)

end InputField

end LittleScript.Repl
