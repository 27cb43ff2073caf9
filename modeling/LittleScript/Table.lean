import LittleScript.Text

namespace LittleScript

/-!
# Tables

A finite map from names to entries, kept in bytewise order of the names so that listings need no
sorting.
-/

/-- Entries under names, in bytewise order of the names. -/
structure Table (α : Type) where
  entries : List (Text × α) := []

namespace Table

variable {α : Type}

/-- The table without entries. -/
def empty : Table α := {}

instance : Inhabited (Table α) := ⟨empty⟩

/-- The entry under a name. -/
def get? (table : Table α) (name : Text) : Option α :=
  table.entries.lookup name

/-- Whether a name has an entry. -/
def contains (table : Table α) (name : Text) : Bool :=
  (table.get? name).isSome

/-- Put an entry into a sorted list, replacing the one under the same name. -/
def insertEntry (name : Text) (entry : α) : List (Text × α) → List (Text × α)
  | [] => [(name, entry)]
  | (other, otherEntry) :: rest =>
      match Text.compare name other with
      | .lt => (name, entry) :: (other, otherEntry) :: rest
      | .eq => (name, entry) :: rest
      | .gt => (other, otherEntry) :: insertEntry name entry rest

/-- Put an entry under a name, replacing the one that was there. -/
def insert (table : Table α) (name : Text) (entry : α) : Table α :=
  ⟨insertEntry name entry table.entries⟩

/-- Remove the entry under a name. -/
def erase (table : Table α) (name : Text) : Table α :=
  ⟨table.entries.filter fun entry => entry.1 != name⟩

/-- The names that have entries, in bytewise order. -/
def names (table : Table α) : List Text :=
  table.entries.map Prod.fst

/-- The number of entries. -/
def size (table : Table α) : Nat :=
  table.entries.length

end Table

end LittleScript
