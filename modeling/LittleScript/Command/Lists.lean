import LittleScript.Command.Strings
import LittleScript.Script.Scope

namespace LittleScript.Command

/-!
# Commands on lists

A list is given as a text and read like the words of a command.
-/

open Eval

variable {σ : Type}

/-- The number of elements of a list. -/
def count (run : Run σ) : List Text → Eval σ Reply
  | list :: _ => do return integer (← readList run list).length
  | [] => return integer 0

/-- The element at a position; nothing outside the list. -/
def index (run : Run σ) : List Text → Eval σ Reply
  | list :: position :: _ => do
      let items ← readList run list
      match position.toInt? with
      | some index => return .value (if index < 0 then [] else items.getD index.toInt.toNat [])
      | none => return .value []
  | _ => return .badArguments

/-- The first position of an element; nothing when the list does not have it. -/
def indexOf (run : Run σ) : List Text → Eval σ Reply
  | list :: item :: _ => do
      match (← readList run list).idxOf? item with
      | some index => return integer index
      | none => return .value []
  | _ => return .badArguments

/-- Append elements to the list in a variable. -/
def appendTo (run : Run σ) (mode : Mode) : List Text → Eval σ Reply
  | name :: first :: rest => do
      let items ← readList run (← getVariable name)
      let extended := ListText.write (items ++ first :: rest)
      let _ ← setVariable run name extended mode
      return .value extended
  | _ => return .badArguments

/-- The word that directs an assignment to the root frame. -/
def globalWord : Text := Text.ofString "global"

/-- Append elements to the list in a variable, which may be directed to be global. -/
def append (run : Run σ) : List Text → Eval σ Reply
  | [] => return .badArguments
  | first :: rest =>
      if first == globalWord then appendTo run .global rest
      else appendTo run .visible (first :: rest)

/-- The elements from a start up to, not including, an end, as a list. -/
def slice (run : Run σ) : List Text → Eval σ Reply
  | list :: start :: rest => do
      let items ← readList run list
      return .value (ListText.write
        (segment items (start.toIntD 0).toInt (rangeEnd items.length rest)))
  | _ => return .badArguments

/-- Keep the elements for which a condition is true; `kept` is in reverse. -/
def filterItems (run : Run σ) (name condition : Text) : List Text → List Text →
    Eval σ (List Text)
  | [], kept => return kept.reverse
  | item :: rest, kept => do
      let _ ← setVariable run name item .own
      let value ← expression run condition
      if ← hasError then return kept.reverse
      let kept := if (value.getD []).truth then item :: kept else kept
      if ← isStopping then return kept.reverse
      filterItems run name condition rest kept

/-- The variable that holds the element, the list and the code of a loop over a list. -/
def loopParts (defaultName : String) : List Text → Option (Text × Text × Text)
  | name :: list :: code :: _ => some (name, list, code)
  | [list, code] => some (Text.ofString defaultName, list, code)
  | _ => none

/-- Keep the elements for which a condition is true. -/
def filter (run : Run σ) (arguments : List Text) : Eval σ Reply := do
  match loopParts "x" arguments with
  | some (name, list, condition) =>
      return .value (ListText.write
        (← filterItems run name condition (← readList run list) []))
  | none => return .badArguments

/-- Assign the elements of a list to variables; a variable without an element becomes empty. -/
def mapNames (run : Run σ) : List Text → Eval σ Reply
  | list :: first :: rest => do
      let items ← readList run list
      let names := first :: rest
      let values := (List.range names.length).map fun position => items.getD position []
      setVariables run .visible (names.zip values)
      return .value []
  | _ => return .badArguments

/-- Read each argument as a list and write them one behind the other. -/
def concat (run : Run σ) : List Text → Text → Eval σ Reply
  | [], done => return .value done
  | list :: rest, done => do
      concat run rest (done ++ ListText.write (← readList run list))

end LittleScript.Command
