import LittleScript.Text.Cluster
import LittleScript.Text.Escape

namespace LittleScript

/-!
# Display columns

How many columns of a terminal a text takes.  Escape sequences take none, printing ASCII takes one,
and beyond ASCII every cluster takes its own width.
-/

/-- Add the columns of a text to a count; `skip` counts the bytes of the cluster taken last. -/
def Text.columnsFrom : Escape → Nat → Text → Nat → Nat
  | _, _, [], count => count
  | state, skip + 1, _ :: rest, count => columnsFrom state skip rest count
  | state, 0, byte :: rest, count =>
      match state.next byte with
      | .character =>
          match Cluster.first? (byte :: rest) with
          | some cluster =>
              columnsFrom .ground (cluster.size - 1) rest (count + cluster.columns)
          | none => count
      | next => columnsFrom next 0 rest (if state.shows byte then count + 1 else count)

/-- How many columns a text takes. -/
def Text.columns (text : Text) : Nat :=
  columnsFrom .ground 0 text 0

end LittleScript
