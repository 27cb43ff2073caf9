import LittleScript.ListText
import LittleScript.Machine.State
import LittleScript.Number

namespace LittleScript.Command

/-!
# Commands on strings

These commands compute on the bytes of their arguments and touch nothing else.
-/

/-- The text of an integer as an answer. -/
def integer (number : Int) : Reply :=
  .value (Text.ofInt number)

/-- The bytes that trimming drops unless it is told otherwise. -/
def defaultTrimSet : Text :=
  [Byte.space, Byte.formFeed, Byte.newline, Byte.carriageReturn, Byte.tab, Byte.verticalTab]

/-- The number of bytes of the arguments joined with single spaces. -/
def length (arguments : List Text) : Reply :=
  integer (Text.joinSpaced arguments).length

/-- The byte with a code, of which the low eight bits count. -/
def char : List Text → Reply
  | code :: _ => .value [UInt8.ofNat ((code.toIntD 0).toInt % 256).toNat]
  | [] => .badArguments

/-- The byte of a text at a position in it. -/
def byteAt? (text position : Text) : Option UInt8 :=
  match position.toInt? with
  | some index => if index < 0 then none else text[index.toInt.toNat]?
  | none => none

/-- The byte at a position; nothing outside the text. -/
def charAt : List Text → Reply
  | text :: position :: _ => .value (byteAt? text position).toList
  | _ => .badArguments

/-- The code of the byte at a position; nothing outside the text. -/
def codeAt : List Text → Reply
  | text :: position :: _ =>
      match byteAt? text position with
      | some byte => integer byte.toNat
      | none => .value []
  | _ => .badArguments

/-- The elements from position `start` up to, not including, position `stop`, where they exist. -/
def segment {α : Type} (items : List α) (start stop : Int) : List α :=
  let first := (max start 0).toNat
  let last := (min stop items.length).toNat
  (items.drop first).take (last - first)

/-- The end of a range: the third argument read as an integer, or the whole length. -/
def rangeEnd (size : Nat) : List Text → Int
  | stop :: _ => (stop.toInt?.map Int64.toInt).getD size
  | [] => size

/-- The bytes from a start up to, not including, an end. -/
def substring : List Text → Reply
  | text :: start :: rest =>
      .value (segment text (start.toIntD 0).toInt (rangeEnd text.length rest))
  | _ => .badArguments

/-- The position of one text in another, from a start on; minus one when it does not occur. -/
def position : List Text → Reply
  | text :: needle :: rest =>
      let start := (match rest with | first :: _ => max (first.toIntD 0).toInt 0 | [] => 0).toNat
      if text.length < start then integer (-1)
      else
        match Text.indexOf? needle (text.drop start) with
        | some index => integer (start + index : Nat)
        | none => integer (-1)
  | _ => .badArguments

/-- Trim with a rule, given a text and perhaps the characters to drop. -/
def trimWith (rule : Text → Text → Text) : List Text → Reply
  | [text] => .value (rule defaultTrimSet text)
  | text :: set :: _ => .value (rule set text)
  | [] => .badArguments

/-- Minus one, zero or one as the first text comes before, with or after the second. -/
def compare : List Text → Reply
  | left :: right :: _ =>
      match Text.compare left right with
      | .lt => integer (-1)
      | .eq => integer 0
      | .gt => integer 1
  | _ => .badArguments

/-- Whether two texts are the same. -/
def equal : List Text → Reply
  | left :: right :: _ => .value (Text.ofBool (left == right))
  | _ => .badArguments

/-- Replace every occurrence of one text by another; the empty text occurs nowhere. -/
def replace : List Text → Reply
  | text :: old :: new :: _ =>
      .value (if old.isEmpty then text else Text.replaceAll old new text)
  | _ => .badArguments

/-- Cut a text at each byte of a set, by default the space, into a list with all empty pieces. -/
def split : List Text → Reply
  | [] => .badArguments
  | text :: rest =>
      let separators := match rest with | set :: _ => set | [] => [Byte.space]
      .value (ListText.write (text.splitAt separators.contains))

end LittleScript.Command
