import LittleScript.Command.Lists
import LittleScript.Fault

namespace LittleScript.Guarded

/-!
# Accesses within bounds

Here every access to a position of a text or a list is checked, and so is every count: a computation
that leaves the bounds has no result.  The commands on strings and lists and the code frame of an
error, written with such accesses, always have a result, and it is the usual one.
-/

variable {α : Type}

/-! ## Accesses -/

/-- The element at a position, which must be inside. -/
def element (items : List α) (position : Int) : Option α :=
  if position < 0 then none else items[position.toNat]?

/-- The elements between two positions, which must be inside and in order. -/
def slice (items : List α) (start stop : Int) : Option (List α) :=
  if 0 ≤ start ∧ start ≤ stop ∧ stop ≤ items.length then
    some ((items.drop start.toNat).take (stop.toNat - start.toNat))
  else none

/-- A run of spaces, of which there must not be fewer than none. -/
def spaces (count : Int) : Option Text :=
  if count < 0 then none else some (Source.spaces count.toNat)

/-- An element within a list is there. -/
theorem element_of_inside
    {items : List α}
    {position : Nat}
    (inside : position < items.length) :
    element items position = some items[position] := by
  simp [element, inside]

/-- A stretch within a list is cut out. -/
theorem slice_of_inside
    {items : List α}
    {start stop : Nat}
    (ordered : start ≤ stop)
    (inside : stop ≤ items.length) :
    slice items start stop = some ((items.drop start).take (stop - start)) := by
  simp [slice, ordered, inside]

/-- A number of spaces that is not negative can be written. -/
theorem spaces_of_nat
    (count : Nat) :
    spaces count = some (Source.spaces count) := by
  simp [spaces]

/-- There is room for the spaces before a column that is counted from one. -/
theorem spaces_before
    {column : Nat}
    (positive : 0 < column) :
    spaces ((column : Int) - 1) = some (Source.spaces (column - 1)) := by
  rw [← spaces_of_nat]
  congr 1
  omega

/-! ## Commands on strings and lists -/

/-- The element at a position that may be outside. -/
def element? (items : List α) (position : Option Int64) : Option (Option α) :=
  match position with
  | none => some none
  | some index =>
      if index.toInt < 0 ∨ items.length ≤ index.toInt then some none
      else (element items index.toInt).map some

/-- The elements between two positions that may be outside. -/
def segment (items : List α) (start stop : Int) : Option (List α) :=
  let first := max start 0
  let last := min stop items.length
  if items.length ≤ first ∨ last ≤ first then some [] else slice items first last

/-- The byte at a position; nothing outside the text. -/
def charAt : List Text → Option Reply
  | text :: position :: _ => do return .value (← element? text position.toInt?).toList
  | _ => some .badArguments

/-- The code of the byte at a position; nothing outside the text. -/
def codeAt : List Text → Option Reply
  | text :: position :: _ => do
      match ← element? text position.toInt? with
      | some byte => return Command.integer byte.toNat
      | none => return .value []
  | _ => some .badArguments

/-- The bytes from a start up to, not including, an end. -/
def substring : List Text → Option Reply
  | text :: start :: rest => do
      return .value (← segment text (start.toIntD 0).toInt (Command.rangeEnd text.length rest))
  | _ => some .badArguments

/-- The position of one text in another, from a start on; minus one when it does not occur. -/
def positionFrom (text needle : Text) (start : Int) : Option Reply := do
  if text.length < start then return Command.integer (-1)
  match Text.indexOf? needle (← slice text start text.length) with
  | some index => return Command.integer (start + index)
  | none => return Command.integer (-1)

/-- The position of one text in another, from a start on if there is one. -/
def position : List Text → Option Reply
  | text :: needle :: start :: _ => positionFrom text needle (max (start.toIntD 0).toInt 0)
  | [text, needle] => positionFrom text needle 0
  | _ => some .badArguments

/-- An element is only looked up where it is. -/
theorem element?_eq
    (items : List α)
    (position : Option Int64) :
    element? items position =
      some (position.bind fun index => if index < 0 then none else items[index.toInt.toNat]?) := by
  cases position with
  | none =>
      rfl
  | some index =>
      have isNegative : index < 0 ↔ index.toInt < 0 := Int64.lt_iff_toInt_lt
      rw [element?, Option.bind_some]
      by_cases negative : index.toInt < 0
      · rw [if_pos (.inl negative), if_pos (isNegative.mpr negative)]
      · obtain ⟨place, isPlace⟩ := Int.eq_ofNat_of_zero_le (Int.not_lt.mp negative)
        rw [if_neg (mt isNegative.mp negative), isPlace, Int.toNat_natCast]
        by_cases inside : place < items.length
        · rw [if_neg (by omega), element_of_inside inside, List.getElem?_eq_getElem inside]
          rfl
        · rw [if_pos (by omega), List.getElem?_eq_none (by omega)]

/-- A stretch is only cut out where it is. -/
theorem segment_eq
    (items : List α)
    (start stop : Int) :
    segment items start stop = some (Command.segment items start stop) := by
  simp only [segment, Command.segment]
  split
  case isTrue outside =>
    rcases outside with beyond | crossed
    · have beyondNat : items.length ≤ (max start 0).toNat := by omega
      simp [List.drop_eq_nil_of_le beyondNat]
    · have crossedNat : (min stop items.length).toNat - (max start 0).toNat = 0 := by omega
      simp only [crossedNat, List.take_zero]
  case isFalse inside =>
    rw [slice, if_pos (by omega)]

/-- The character at a position is looked up within the text. -/
theorem charAt_eq
    (arguments : List Text) :
    charAt arguments = some (Command.charAt arguments) := by
  rcases arguments with _ | ⟨text, _ | ⟨position, rest⟩⟩
  · rfl
  · rfl
  · simp only [charAt, element?_eq, Command.charAt, Command.byteAt?]
    cases position.toInt? <;> rfl

/-- The code at a position is looked up within the text. -/
theorem codeAt_eq
    (arguments : List Text) :
    codeAt arguments = some (Command.codeAt arguments) := by
  rcases arguments with _ | ⟨text, _ | ⟨position, rest⟩⟩
  · rfl
  · rfl
  · have sameByte : element? text position.toInt? = some (Command.byteAt? text position) := by
      rw [element?_eq, Command.byteAt?]
      cases position.toInt? <;> rfl
    simp only [codeAt, sameByte, Command.codeAt]
    cases Command.byteAt? text position <;> rfl

/-- A part of a text is cut out within the text. -/
theorem substring_eq
    (arguments : List Text) :
    substring arguments = some (Command.substring arguments) := by
  rcases arguments with _ | ⟨text, _ | ⟨start, rest⟩⟩
  · rfl
  · rfl
  · simp only [substring, segment_eq, Command.substring]
    rfl

/-- A text is searched from a start on that is not negative. -/
theorem positionFrom_eq
    (text needle : Text)
    {start : Int}
    (positive : 0 ≤ start) :
    positionFrom text needle start =
      some (if text.length < start.toNat then Command.integer (-1)
        else
          match Text.indexOf? needle (text.drop start.toNat) with
          | some index => Command.integer (start.toNat + index : Nat)
          | none => Command.integer (-1)) := by
  obtain ⟨offset, rfl⟩ := Int.eq_ofNat_of_zero_le positive
  simp only [positionFrom, Int.toNat_natCast, Int.ofNat_lt]
  split
  case isTrue => rfl
  case isFalse inside =>
    have sliced := slice_of_inside (Nat.le_of_not_lt inside) (Nat.le_refl text.length)
    rw [List.take_of_length_le (by simp)] at sliced
    simp only [sliced, Option.bind_eq_bind, Option.bind_some]
    cases Text.indexOf? needle (text.drop offset) <;> rfl

/-- The start of a search is never negative. -/
theorem position_eq
    (arguments : List Text) :
    position arguments = some (Command.position arguments) := by
  rcases arguments with _ | ⟨text, _ | ⟨needle, _ | ⟨start, rest⟩⟩⟩
  · rfl
  · rfl
  · exact positionFrom_eq text needle (Int.le_refl 0)
  · exact positionFrom_eq text needle (Int.le_max_right _ 0)

/-! ## The code frame of an error -/

/-- The line and column of an offset, counted in the text before it. -/
def place (source : Text) (offset : Int) : Option Source.Place := do
  if source.isEmpty || offset < 0 then return ⟨0, 0⟩
  let before ← slice source 0 (min offset source.length)
  let inLine := before.reverse.takeWhile (· != Byte.newline)
  return ⟨1 + before.count Byte.newline, inLine.length + 1⟩

/-- The line of a place with a caret below its column; empty when there is no place. -/
def codeFrame (source : Text) (place : Source.Place) : Option Text := do
  let lines := Text.lines source
  if source.isEmpty || place.line = 0 || lines.length < place.line then return []
  let shown := Source.dropReturns (← element lines (place.line - 1))
  let column := min (max place.column 1) (shown.length + 1)
  let label := Text.ofNat place.line
  let gutter ← spaces label.length
  let caret ← spaces (column - 1)
  return Text.ofString "  --> line " ++ label ++ Text.ofString ", column " ++ Text.ofNat column ++
    Text.ofString "\n " ++ label ++ Text.ofString " | " ++ shown ++
    Text.ofString "\n " ++ gutter ++ Text.ofString " | " ++ caret ++ Text.ofString "^"

/-- The error for a reason at an offset of a source text. -/
def locate (reason : Reason) (source : Text) (offset : Int) : Option ScriptError := do
  let place ← place source offset
  let codeFrame ← codeFrame source place
  return { reason, offset, place, codeFrame }

/-- How much of a text follows its last line break, and so of a text with one more byte in front. -/
theorem inLine_cons
    (byte : UInt8)
    (text : Text) :
    ((byte :: text).reverse.takeWhile (· != Byte.newline)).length =
      (text.reverse.takeWhile (· != Byte.newline)).length +
        if byte = Byte.newline ∨ Byte.newline ∈ text then 0 else 1 := by
  by_cases broken : Byte.newline ∈ text
  · have shorter : (text.reverse.takeWhile (· != Byte.newline)).length ≠ text.reverse.length := by
      intro whole
      have all := (List.takeWhile_prefix (· != Byte.newline)).eq_of_length whole
      have passes := List.all_takeWhile (l := text.reverse) (p := (· != Byte.newline))
      rw [all, List.all_eq_true] at passes
      simpa using passes Byte.newline (List.mem_reverse.mpr broken)
    rw [List.reverse_cons, List.takeWhile_append, if_neg shorter, if_pos (.inr broken),
      Nat.add_zero]
  · have passes : ∀ other ∈ text.reverse, (other != Byte.newline) = true := by
      intro other member
      have isOther : other ≠ Byte.newline := fun same => broken (same ▸ List.mem_reverse.mp member)
      simpa using isOther
    have whole : text.reverse.takeWhile (· != Byte.newline) = text.reverse := by
      have appended : (text.reverse ++ []).takeWhile (· != Byte.newline) = text.reverse ++ [] :=
        List.takeWhile_append_of_pos passes
      rwa [List.append_nil] at appended
    rw [List.reverse_cons, List.takeWhile_append_of_pos passes, whole]
    by_cases isBreak : byte = Byte.newline
    · simp [isBreak]
    · simp [isBreak, broken]

/-- A walk counts the line breaks before its end, and what follows the last of them. -/
theorem walk_eq
    (text : Text) :
    ∀ (offset : Nat) (start : Source.Place),
      Source.walk text offset start =
        ⟨start.line + (text.take offset).count Byte.newline,
          ((text.take offset).reverse.takeWhile (· != Byte.newline)).length +
            if Byte.newline ∈ text.take offset then 1 else start.column⟩ := by
  induction text with
  | nil =>
      intro offset start
      cases offset <;> simp [Source.walk]
  | cons byte rest inductionHypothesis =>
      intro offset start
      cases offset with
      | zero =>
          simp [Source.walk]
      | succ offset =>
          rw [Source.walk, List.take_succ_cons, inLine_cons]
          split
          case isTrue isBreak =>
            have isNewline : byte = Byte.newline := by simpa using isBreak
            rw [inductionHypothesis, isNewline]
            simp only [List.count_cons_self, List.mem_cons, true_or, if_true, Source.Place.mk.injEq]
            refine ⟨by omega, ?_⟩
            split <;> rfl
          case isFalse noBreak =>
            have notNewline : byte ≠ Byte.newline := by simpa using noBreak
            rw [inductionHypothesis]
            simp only [List.count_cons_of_ne notNewline, List.mem_cons, notNewline, notNewline.symm,
              false_or, Source.Place.mk.injEq, true_and]
            split <;> omega

/-- The place of an offset is counted within the source. -/
theorem place_eq
    (source : Text)
    (offset : Int) :
    place source offset = some (Source.place source offset) := by
  rw [place, Source.place]
  split
  case isTrue => rfl
  case isFalse given =>
    obtain ⟨count, isCount⟩ : ∃ count : Nat, offset = count := by
      refine Int.eq_ofNat_of_zero_le ?_
      simp only [Bool.or_eq_true, decide_eq_true_eq, not_or] at given
      omega
    have atMost : min count source.length ≤ source.length := Nat.min_le_right ..
    have sliced := slice_of_inside (Nat.zero_le _) atMost
    have before : (source.drop 0).take (min count source.length - 0) = source.take count := by
      rw [List.drop_zero, Nat.sub_zero, List.take_eq_take_min]
      simp
    rw [before] at sliced
    have isSlice : slice source 0 (min offset source.length) = some (source.take count) := by
      rw [isCount, ← sliced]
      congr 1
      omega
    rw [isSlice, isCount, Int.toNat_natCast, walk_eq]
    simp only [Option.bind_eq_bind, Option.bind_some, ite_self]
    rfl

/-- The line that a frame shows is one of the source. -/
theorem codeFrame_eq
    (source : Text)
    (place : Source.Place) :
    codeFrame source place = some (Source.codeFrame source place) := by
  rw [codeFrame, Source.codeFrame]
  by_cases missing : (source.isEmpty || place.line = 0) = true
  · simp only [missing, Bool.true_or, if_true]
    rfl
  · simp only [missing, Bool.false_or, Bool.false_eq_true, if_false, decide_eq_true_eq]
    have numbered : 0 < place.line := by
      simp only [Bool.or_eq_true, decide_eq_true_eq, not_or] at missing
      omega
    by_cases beyond : (Text.lines source).length < place.line
    · rw [if_pos beyond, List.getElem?_eq_none (by omega)]
      rfl
    · have inside : place.line - 1 < (Text.lines source).length := by omega
      have isLine : element (Text.lines source) (place.line - 1) =
          some (Text.lines source)[place.line - 1] := by
        rw [← element_of_inside inside]
        congr 1
        omega
      rw [if_neg beyond, isLine, List.getElem?_eq_getElem inside]
      simp only [Option.bind_eq_bind, Option.bind_some, spaces_of_nat]
      rw [spaces_before (by omega)]
      rfl

/-- An error is always located within its source. -/
theorem locate_eq
    (reason : Reason)
    (source : Text)
    (offset : Int) :
    locate reason source offset = some (.locate reason source offset) := by
  simp only [locate, place_eq, codeFrame_eq, ScriptError.locate, Option.bind_eq_bind,
    Option.bind_some]
  rfl

end LittleScript.Guarded
