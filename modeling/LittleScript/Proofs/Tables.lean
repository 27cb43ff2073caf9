import LittleScript.Table

namespace LittleScript

/-!
# Tables in order

Tables are built by insertion and removal, so their entries stay in strict bytewise order and no
name has two.  What is found in a table is then the same as what is listed in it.
-/

/-! ## Bytewise order -/

theorem Text.compare_eq_iff
    (text : Text) :
    ∀ other : Text, Text.compare text other = .eq ↔ text = other := by
  induction text with
  | nil =>
      intro other
      cases other <;> simp [Text.compare]
  | cons byte rest inductionHypothesis =>
      intro other
      cases other with
      | nil =>
          simp [Text.compare]
      | cons otherByte otherRest =>
          rw [Text.compare, List.cons.injEq, ← inductionHypothesis otherRest]
          split
          case isTrue less => simp [UInt8.ne_of_lt less]
          case isFalse notLess =>
            split
            case isTrue greater => simp [(UInt8.ne_of_lt greater).symm]
            case isFalse notGreater =>
              have same : byte = otherByte :=
                UInt8.le_antisymm (UInt8.not_lt.mp notGreater) (UInt8.not_lt.mp notLess)
              simp [same]

theorem Text.compare_lt_trans
    (first : Text) :
    ∀ second third : Text, Text.compare first second = .lt →
      Text.compare second third = .lt → Text.compare first third = .lt := by
  induction first with
  | nil =>
      intro second third less lessThan
      cases third with
      | nil =>
          cases second <;> simp [Text.compare] at lessThan
      | cons byte rest => rfl
  | cons byte rest inductionHypothesis =>
      intro second third less lessThan
      cases second with
      | nil => simp [Text.compare] at less
      | cons otherByte otherRest =>
          cases third with
          | nil => simp [Text.compare] at lessThan
          | cons thirdByte thirdRest =>
              simp only [Text.compare] at less lessThan ⊢
              grind

theorem Text.compare_eq_gt_iff
    (text : Text) :
    ∀ other : Text, Text.compare text other = .gt ↔ Text.compare other text = .lt := by
  induction text with
  | nil =>
      intro other
      cases other <;> simp [Text.compare]
  | cons byte rest inductionHypothesis =>
      intro other
      cases other with
      | nil => simp [Text.compare]
      | cons otherByte otherRest =>
          have same := inductionHypothesis otherRest
          simp only [Text.compare]
          grind

namespace Table

variable {α : Type}

/-! ## Looking up -/

/-- What a table holds after an insertion was put there, or was there before. -/
theorem mem_insertEntry
    {name : Text}
    {value : α}
    {entries : List (Text × α)}
    {entry : Text × α}
    (member : entry ∈ insertEntry name value entries) :
    entry = (name, value) ∨ entry ∈ entries := by
  induction entries with
  | nil =>
      simpa [insertEntry] using member
  | cons first rest inductionHypothesis =>
      obtain ⟨other, otherValue⟩ := first
      rw [insertEntry] at member
      split at member
      · simpa using member
      · rcases List.mem_cons.mp member with isNew | inRest
        · exact .inl isNew
        · exact .inr (List.mem_cons_of_mem _ inRest)
      · rcases List.mem_cons.mp member with isFirst | inRest
        · exact .inr (by simp [isFirst])
        · rcases inductionHypothesis inRest with isNew | wasThere
          · exact .inl isNew
          · exact .inr (List.mem_cons_of_mem _ wasThere)

/-- What is found under a name makes an entry with it. -/
theorem mem_entries_of_get?
    {table : Table α}
    {name : Text}
    {value : α}
    (found : table.get? name = some value) :
    (name, value) ∈ table.entries := by
  obtain ⟨before, after, shape, -⟩ := List.lookup_eq_some_iff.mp found
  simp [shape]

/-- What is found in a table is one of its entries. -/
theorem mem_of_get?
    {table : Table α}
    {name : Text}
    {value : α}
    (found : table.get? name = some value) :
    ∃ entry ∈ table.entries, entry.2 = value :=
  ⟨(name, value), mem_entries_of_get? found, rfl⟩

/-- A name that is found in a table is one of its names. -/
theorem mem_names_of_get?
    {table : Table α}
    {name : Text}
    {value : α}
    (found : table.get? name = some value) :
    name ∈ table.names :=
  List.mem_map.mpr ⟨(name, value), mem_entries_of_get? found, rfl⟩

theorem lookup_cons_eq
    (name known : Text)
    (value : α)
    (rest : List (Text × α)) :
    List.lookup name ((known, value) :: rest) =
      if name = known then some value else List.lookup name rest := by
  rw [List.lookup_cons]
  by_cases same : name = known
  · simp [same]
  · simp [same, beq_false_of_ne same]

theorem get?_insert
    (table : Table α)
    (name other : Text)
    (entry : α) :
    (table.insert name entry).get? other =
      if other = name then some entry else table.get? other := by
  obtain ⟨entries⟩ := table
  simp only [get?, insert]
  induction entries with
  | nil =>
      simp only [insertEntry, lookup_cons_eq]
  | cons first rest inductionHypothesis =>
      obtain ⟨known, value⟩ := first
      simp only [insertEntry]
      cases compared : Text.compare name known with
      | lt =>
          simp only [lookup_cons_eq]
      | eq =>
          rw [(Text.compare_eq_iff name known).mp compared]
          simp only [lookup_cons_eq]
          split <;> rfl
      | gt =>
          have differs : name ≠ known := fun same => by
            rw [(Text.compare_eq_iff name known).mpr same] at compared
            cases compared
          simp only [lookup_cons_eq, inductionHypothesis]
          by_cases same : other = known
          · simp [same, differs.symm]
          · simp [same]

/-- The entry that is put there last replaces the one before. -/
theorem insert_insert
    (table : Table α)
    (name : Text)
    (first second : α) :
    (table.insert name first).insert name second = table.insert name second := by
  obtain ⟨entries⟩ := table
  have same := (Text.compare_eq_iff name name).mpr rfl
  simp only [insert, mk.injEq]
  induction entries with
  | nil =>
      simp [insertEntry, same]
  | cons head rest inductionHypothesis =>
      obtain ⟨known, value⟩ := head
      simp only [insertEntry]
      cases compared : Text.compare name known <;>
        simp [insertEntry, same, compared, inductionHypothesis]

theorem get?_erase
    (table : Table α)
    (name other : Text) :
    (table.erase name).get? other = if other = name then none else table.get? other := by
  obtain ⟨entries⟩ := table
  simp only [get?, erase]
  induction entries with
  | nil =>
      simp
  | cons first rest inductionHypothesis =>
      obtain ⟨known, value⟩ := first
      by_cases removed : known = name
      · simp only [removed, bne_self_eq_false, Bool.false_eq_true, not_false_eq_true,
          List.filter_cons_of_neg, inductionHypothesis, lookup_cons_eq]
        split <;> rfl
      · have kept : (known != name) = true := bne_iff_ne.mpr removed
        simp only [kept, List.filter_cons_of_pos, lookup_cons_eq, inductionHypothesis]
        by_cases same : other = known
        · simp [same, removed]
        · simp [same]

/-! ## Order -/

/-- The names of a table are in strict bytewise order. -/
def Ordered (table : Table α) : Prop :=
  table.entries.Pairwise fun early late => Text.compare early.1 late.1 = .lt

theorem ordered_empty :
    (empty : Table α).Ordered :=
  .nil

theorem Ordered.erase
    {table : Table α}
    (ordered : table.Ordered)
    (name : Text) :
    (table.erase name).Ordered :=
  ordered.filter _

theorem Ordered.insert
    {table : Table α}
    (ordered : table.Ordered)
    (name : Text)
    (entry : α) :
    (table.insert name entry).Ordered := by
  obtain ⟨entries⟩ := table
  simp only [Ordered, Table.insert] at ordered ⊢
  induction entries with
  | nil =>
      exact List.pairwise_singleton _ _
  | cons first rest inductionHypothesis =>
      obtain ⟨known, value⟩ := first
      obtain ⟨ahead, behind⟩ := List.pairwise_cons.mp ordered
      simp only [insertEntry]
      cases compared : Text.compare name known with
      | lt =>
          refine List.pairwise_cons.mpr ⟨fun later member => ?_, ordered⟩
          rcases List.mem_cons.mp member with isKnown | inRest
          · rw [isKnown]
            exact compared
          · exact Text.compare_lt_trans name known later.1 compared (ahead later inRest)
      | eq =>
          rw [(Text.compare_eq_iff name known).mp compared]
          exact List.pairwise_cons.mpr ⟨ahead, behind⟩
      | gt =>
          refine List.pairwise_cons.mpr ⟨fun later member => ?_, inductionHypothesis behind⟩
          rcases mem_insertEntry member with isNew | inRest
          · rw [isNew]
            exact (Text.compare_eq_gt_iff name known).mp compared
          · exact ahead later inRest

/-- In an ordered table an entry is found just when it is listed. -/
theorem Ordered.get?_eq_some_iff
    {table : Table α}
    (ordered : table.Ordered)
    {name : Text}
    {value : α} :
    table.get? name = some value ↔ (name, value) ∈ table.entries := by
  obtain ⟨entries⟩ := table
  simp only [Ordered, get?] at ordered ⊢
  induction entries with
  | nil =>
      simp
  | cons first rest inductionHypothesis =>
      obtain ⟨known, other⟩ := first
      obtain ⟨ahead, behind⟩ := List.pairwise_cons.mp ordered
      rw [lookup_cons_eq, List.mem_cons, Prod.mk.injEq]
      by_cases same : name = known
      · have notBehind : (name, value) ∉ rest := fun member => by
          have less := ahead (name, value) member
          rw [same, (Text.compare_eq_iff known known).mpr rfl] at less
          cases less
        simp only [same, if_true, Option.some.injEq, true_and]
        rw [same] at notBehind
        exact ⟨fun isValue => .inl isValue.symm,
          fun listed => (listed.resolve_right notBehind).symm⟩
      · simp [same, inductionHypothesis behind]

end Table

end LittleScript
