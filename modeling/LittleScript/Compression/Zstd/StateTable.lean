import LittleScript.Compression.Zstd.ShareReader

namespace LittleScript.Compression.Zstd

/-!
# State tables

A symbol is given by a state, and the next state by the current one and some bits.  The table of
states is determined by how many of its cells each symbol owns.
-/

/-- A state: its symbol, and that the next state is `base` plus `width` bits. -/
structure StateEntry where
  symbol : Nat
  width : Nat
  base : Nat
  deriving Repr, DecidableEq

/-- A table of `2 ^ accuracy` states. -/
structure StateTable where
  accuracy : Nat
  entries : Array StateEntry
  deriving Repr, DecidableEq

namespace StateTable

/-- The table with one state. -/
def single (symbol : Nat) : StateTable :=
  ⟨0, #[⟨symbol, 0, 0⟩]⟩

/-- The cells that are not taken by rare symbols, in the order in which they are given away. -/
def spots (size common : Nat) : List Nat :=
  let stride := size / 2 + size / 8 + 3
  ((List.range size).map fun turn => turn * stride % size).filter (· < common)

/-- Which symbol owns each cell of a table. -/
def owners (size : Nat) (shares : List Share) : Array Nat :=
  let numbered := shares.zipIdx
  let rare := (numbered.filter fun entry => entry.1.isRare).map Prod.snd
  let common := (numbered.filter fun entry => !entry.1.isRare).flatMap fun entry =>
    List.replicate entry.1.size entry.2
  let placed := (spots size (size - rare.length)).zip common
  let initial := Array.replicate (size - rare.length) 0 ++ rare.reverse.toArray
  placed.foldl (fun table entry => table.setIfInBounds entry.1 entry.2) initial

/-- Number the cells of each symbol, starting with the size of its share. -/
def number (accuracy : Nat) :
    List Nat → Array Nat → Array StateEntry → Array StateEntry
  | [], _, done => done
  | symbol :: rest, next, done =>
      let rank := next.getD symbol 1
      let width := accuracy - rank.log2
      number accuracy rest (next.setIfInBounds symbol (rank + 1))
        (done.push ⟨symbol, width, rank * Nat.pow 2 width - Nat.pow 2 accuracy⟩)

/-- The table in which symbol `i` owns the `i`-th share. -/
def ofShares (accuracy : Nat) (shares : List Share) : StateTable :=
  let cells := owners (Nat.pow 2 accuracy) shares
  ⟨accuracy, number accuracy cells.toList (shares.map Share.size).toArray #[]⟩

/--
Read the description of a table with at most `2 ^ finest` states for the symbols up to `last`; the
text is what follows it.  No symbol may own the whole table.
-/
def read (finest last : Nat) (text : Text) : Except Defect (StateTable × Text) := do
  let (accuracy, shares, rest) ← ShareReader.read finest last text
  if shares.contains (.cells (Nat.pow 2 accuracy)) then throw .soleSymbol
  return (ofShares accuracy shares, rest)

/-- The state with a number. -/
def entry (table : StateTable) (index : Nat) : StateEntry :=
  table.entries.getD index ⟨0, 0, 0⟩

/-- The state that follows another one, given the bits it asks for. -/
def after (table : StateTable) (entry : StateEntry) (bits : Nat) : StateEntry :=
  table.entry (entry.base + bits)

end StateTable

end LittleScript.Compression.Zstd
