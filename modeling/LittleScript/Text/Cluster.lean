import LittleScript.Text.Width

namespace LittleScript

/-!
# Clusters

A cluster is a run of characters that a screen shows as one.  It grows character by character: the
state of its end and the class of the next character decide whether that character still belongs to
it.  The width of a cluster is that of its first character, with what later ones change.
-/

/-- What the end of a cluster can be continued by. -/
inductive ClusterEnd where
  | carriageReturn
  | control
  | leadingConsonant
  | vowel
  | trailingConsonant
  | prepended
  | pictograph
  /-- A pictograph with a joiner behind it. -/
  | joined
  /-- One regional indicator, to be paired. -/
  | unpaired
  /-- A pair of regional indicators. -/
  | paired
  | other
  deriving Repr, DecidableEq

namespace ClusterEnd

open Rune (BreakClass)

/-- The end of a cluster that a character of a class begins. -/
def ofClass : BreakClass → ClusterEnd
  | .carriageReturn => .carriageReturn
  | .lineFeed | .control => .control
  | .extending | .joiner | .spacing | .other => .other
  | .prepended => .prepended
  | .leadingConsonant => .leadingConsonant
  | .vowel | .openSyllable => .vowel
  | .trailingConsonant | .closedSyllable => .trailingConsonant
  | .regional => .unpaired
  | .pictograph => .pictograph

/-- The end after a character that the end before calls for in particular. -/
def join? : ClusterEnd → BreakClass → Option ClusterEnd
  | .carriageReturn, .lineFeed => some .control
  | .leadingConsonant, .leadingConsonant => some .leadingConsonant
  | .leadingConsonant, .vowel | .leadingConsonant, .openSyllable => some .vowel
  | .leadingConsonant, .closedSyllable => some .trailingConsonant
  | .vowel, .vowel => some .vowel
  | .vowel, .trailingConsonant => some .trailingConsonant
  | .trailingConsonant, .trailingConsonant => some .trailingConsonant
  | .pictograph, .extending => some .pictograph
  | .pictograph, .joiner => some .joined
  | .joined, .pictograph => some .pictograph
  | .unpaired, .regional => some .paired
  | _, _ => none

/-- Whether a character belongs to the cluster before it wherever it stands. -/
def attaches : BreakClass → Bool
  | .extending | .joiner | .spacing => true
  | _ => false

/-- Whether a character ends every cluster before it. -/
def separates : BreakClass → Bool
  | .carriageReturn | .lineFeed | .control => true
  | _ => false

/-- The end after one more character, or nothing if that character begins a cluster. -/
def next? (ending : ClusterEnd) (kind : BreakClass) : Option ClusterEnd :=
  match ending.join? kind with
  | some following => some following
  | none =>
      let belongs :=
        match ending with
        | .carriageReturn | .control => false
        | .prepended => !separates kind
        | _ => attaches kind
      if belongs then some (ofClass kind) else none

end ClusterEnd

/-- A cluster: the class of its first character, its end, and the columns and bytes it takes. -/
structure Cluster where
  leading : Rune.BreakClass
  ending : ClusterEnd
  columns : Nat
  size : Nat
  deriving Repr, DecidableEq

namespace Cluster

/-- The selector for a narrow pictograph. -/
def narrowSelector : Nat := 0xfe0e

/-- The selector for a wide pictograph. -/
def wideSelector : Nat := 0xfe0f

/-- A cluster of one character. -/
def ofRune (rune : Rune) : Cluster :=
  ⟨rune.breakClass, .ofClass rune.breakClass, rune.columns, rune.size⟩

/--
The columns after one more character.  Selectors decide about pictographs; flags and syllables
built from their parts stay as wide as they began.
-/
def widened (cluster : Cluster) (rune : Rune) : Nat :=
  match cluster.leading with
  | .pictograph =>
      if rune.code = narrowSelector then 1
      else if rune.code = wideSelector then 2
      else cluster.columns
  | .regional | .leadingConsonant => cluster.columns
  | _ => cluster.columns + rune.columns

/-- The cluster with one more character, or nothing if that character begins the next cluster. -/
def add? (cluster : Cluster) (rune : Rune) : Option Cluster :=
  (cluster.ending.next? rune.breakClass).map fun ending =>
    { cluster with
      ending
      columns := cluster.widened rune
      size := cluster.size + rune.size }

/-- Let a cluster grow over a text; `skip` counts the bytes of the character taken last. -/
def grow : Cluster → Nat → Text → Cluster
  | cluster, _, [] => cluster
  | cluster, skip + 1, _ :: rest => grow cluster skip rest
  | cluster, 0, byte :: rest =>
      match Rune.first? (byte :: rest) with
      | none => cluster
      | some rune =>
          match cluster.add? rune with
          | none => cluster
          | some grown => grow grown (rune.size - 1) rest

/-- The cluster at the front of a text. -/
def first? (text : Text) : Option Cluster :=
  (Rune.first? text).map fun rune => grow (ofRune rune) 0 (text.drop rune.size)

/-- Add the columns of a cluster and of the clusters that follow it to a count. -/
def columnsFrom : Cluster → List Rune → Nat → Nat
  | cluster, [], count => count + cluster.columns
  | cluster, rune :: rest, count =>
      match cluster.add? rune with
      | some grown => columnsFrom grown rest count
      | none => columnsFrom (ofRune rune) rest (count + cluster.columns)

end Cluster

/-- How many columns characters take, cluster by cluster. -/
def Rune.columnsOf : List Rune → Nat
  | [] => 0
  | rune :: rest => Cluster.columnsFrom (.ofRune rune) rest 0

end LittleScript
