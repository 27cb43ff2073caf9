import LittleScript.Proofs.GuardedScanning
import LittleScript.Proofs.Prospect

namespace LittleScript.Source

/-!
# Ends of block comments

For the checker a block comment ends with the first two hashes behind its opening mark.  For the
reader it ends with the first two hashes that no third one follows, which are the last two of a run.
Both find the same run, so a comment that has no end for the one has none for the other; but behind
a run of more than two hashes the reader goes on further on than the checker, which has taken the
rest of the run for another comment.
-/

/-- How far a text reaches up to the end of its first mark of a block comment. -/
def markEnd? : Text → Option Nat
  | [] => none
  | byte :: rest =>
      if opensBlock (byte :: rest) then some 2 else (markEnd? rest).map (· + 1)

/-- Where the reader goes on behind the block comment with which a script starts. -/
def readEnd? (code : Text) : Option Nat :=
  (markEnd? (code.drop 2)).map (· + 2)

/-- Where the checker goes on behind it. -/
def checkedEnd? (code : Text) : Option Nat :=
  (Text.indexOf? blockEnd (code.drop 2)).map (· + 4)

/-- How many hashes a text starts with. -/
def hashes (text : Text) : Nat :=
  (text.takeWhile (· == Byte.hash)).length

theorem hashes_eq_zero_iff
    (text : Text) :
    hashes text = 0 ↔ text.head? ≠ some Byte.hash := by
  cases text with
  | nil => simp [hashes]
  | cons byte rest => by_cases isHash : byte = Byte.hash <;> simp [hashes, isHash]

/-- Inside a block comment the reader goes on behind the next mark. -/
theorem skipFrom_block
    (acrossLines : Bool)
    (start : Nat)
    (text : Text)
    (offset : Nat) :
    skipFrom acrossLines (.block start) text offset =
      match markEnd? text with
      | none => ⟨⟨[], offset + text.length⟩, some start⟩
      | some length => skipFrom acrossLines .plain (text.drop length) (offset + length) := by
  induction text generalizing offset with
  | nil => rfl
  | cons byte rest inductionHypothesis =>
      rw [skipFrom_block_cons, markEnd?]
      split
      · cases rest <;> rfl
      · rw [inductionHypothesis]
        cases markEnd? rest with
        | none => simp [Nat.add_comm, Nat.add_left_comm]
        | some length => simp [Nat.add_comm, Nat.add_left_comm]

theorem indexFrom_succ
    (needle text : Text)
    (passed : Nat) :
    Text.indexFrom needle text (passed + 1) = (Text.indexFrom needle text passed).map (· + 1) := by
  induction text generalizing passed with
  | nil => rw [Text.indexFrom, Text.indexFrom]; split <;> rfl
  | cons byte rest inductionHypothesis =>
      rw [Text.indexFrom, Text.indexFrom]
      split
      · rfl
      · exact inductionHypothesis (passed + 1)

/-- Two hashes end a block comment for the checker, whatever follows them. -/
theorem indexOf?_blockEnd_cons
    (byte : UInt8)
    (rest : Text) :
    Text.indexOf? blockEnd (byte :: rest) =
      if byte = Byte.hash ∧ rest.head? = some Byte.hash then some 0
      else (Text.indexOf? blockEnd rest).map (· + 1) := by
  have starts : blockEnd.isPrefixOf (byte :: rest) = true ↔
      byte = Byte.hash ∧ rest.head? = some Byte.hash := by
    rw [eq_comm (a := byte), eq_comm (b := some Byte.hash)]
    cases rest <;> simp [blockEnd, List.isPrefixOf]
  rw [Text.indexOf?, Text.indexFrom, indexFrom_succ]
  simp only [starts]
  rfl

theorem opensBlock_cons
    (byte : UInt8)
    (rest : Text) :
    opensBlock (byte :: rest) = true ↔
      (byte = Byte.hash ∧ rest.head? = some Byte.hash) ∧ rest.tail.head? ≠ some Byte.hash := by
  rw [opensBlock_eq]
  cases rest <;> simp [List.head?_eq_getElem?]

/-- The first mark of a text consists of the last two of the first hashes in a row. -/
theorem markEnd?_eq
    (text : Text) :
    markEnd? text =
      (Text.indexOf? blockEnd text).map fun inside =>
        inside + 2 + hashes (text.drop (inside + 2)) := by
  induction text with
  | nil => rfl
  | cons byte rest inductionHypothesis =>
      rw [markEnd?, indexOf?_blockEnd_cons, inductionHypothesis]
      simp only [opensBlock_cons]
      by_cases double : byte = Byte.hash ∧ rest.head? = some Byte.hash
      · obtain ⟨behind, rfl⟩ := List.head?_eq_some_iff.mp double.2
        rw [if_pos double, indexOf?_blockEnd_cons]
        cases behind with
        | nil => simp [double.1, hashes]
        | cons third more =>
            by_cases isHash : third = Byte.hash <;> simp [double.1, isHash, hashes]
            omega
      · rw [if_neg double, if_neg fun opens => double opens.1, Option.map_map, Option.map_map]
        congr 1
        funext inside
        rw [Function.comp_apply, Function.comp_apply, Nat.add_right_comm inside 1 2,
          List.drop_succ_cons, Nat.add_right_comm]

/-- The reader's end of a block comment is the checker's one, and what is left of the run there. -/
theorem readEnd?_eq
    (code : Text) :
    readEnd? code = (checkedEnd? code).map fun stop => stop + hashes (code.drop stop) := by
  rw [readEnd?, checkedEnd?, markEnd?_eq, Option.map_map, Option.map_map]
  congr 1
  funext inside
  simp only [Function.comp_apply, List.drop_drop]
  rw [show 2 + (inside + 2) = inside + 4 by omega]
  omega

theorem drop_two_cons
    (byte : UInt8)
    (rest : Text) :
    (byte :: rest).drop 2 = rest.tail := by
  rw [List.drop_succ_cons, List.drop_one]

/-- The checker goes on behind the first two hashes. -/
theorem check_of_opensBlock
    {code : Text}
    (opens : opensBlock code = true) :
    check code =
      match checkedEnd? code with
      | none => some ⟨.openComment, 0⟩
      | some stop => flawFrom (.words true) stop (code.drop stop) := by
  cases code with
  | nil => cases opens
  | cons byte rest =>
      obtain ⟨⟨rfl, -⟩, -⟩ := (opensBlock_cons byte rest).mp opens
      have started : check (Byte.hash :: rest) = flawFrom (.words true) 0 (Byte.hash :: rest) := rfl
      rw [started, flawFrom_eq, checkedEnd?, drop_two_cons]
      cases closed : Text.indexOf? blockEnd rest.tail with
      | none =>
          rw [(Fronted.openComment opens closed).front_eq]
          rfl
      | some inside =>
          have sized := (length_of_indexFrom closed).2
          have dropped : (Byte.hash :: rest).drop (inside + 4) = rest.tail.drop (inside + 2) := by
            rw [← drop_two_cons, List.drop_drop, show 2 + (inside + 2) = inside + 4 by omega]
          rw [(Fronted.block opens closed).front_eq, Option.map_some]
          simp only [dropped]
          refine congrArg (flawFrom (.words true) · _) ?_
          simp only [blockEnd, List.length_cons, List.length_nil, List.length_tail,
            List.length_drop] at sized ⊢
          omega

/-- The reader goes on behind the first two hashes that no third one follows. -/
theorem skipBlanks_of_opensBlock
    (acrossLines : Bool)
    {code : Text}
    (opens : opensBlock code = true) :
    skipBlanks acrossLines (.start code) =
      match readEnd? code with
      | none => ⟨⟨[], code.length⟩, some 0⟩
      | some stop => skipBlanks acrossLines ⟨code.drop stop, stop⟩ := by
  have atLeast : 0 + 2 ≤ code.length := @Guarded.length_of_opensBlock code 0 opens
  cases code with
  | nil => cases opens
  | cons byte rest =>
      obtain ⟨⟨rfl, -⟩, -⟩ := (opensBlock_cons byte rest).mp opens
      rw [skipBlanks, Cursor.start, skipFrom_cons _ _ _ _ _ (.inl rfl), if_pos (by simp),
        if_pos opens, skipFrom_block, readEnd?, ← drop_two_cons]
      cases markEnd? ((Byte.hash :: rest).drop 2) with
      | none =>
          simp only [Option.map_none, List.length_drop]
          rw [show 0 + 2 + ((Byte.hash :: rest).length - 2) = (Byte.hash :: rest).length by omega]
      | some length =>
          simp only [Option.map_some, skipBlanks, List.drop_drop]
          rw [show 0 + 2 + length = length + 2 by omega]

/--
For every script that starts with a block comment: the checker goes on where it finds the comment's
end, or reports the open comment at the start of the script, and so does the reader.  One of them
finds an end if and only if the other does; the reader's is behind all hashes that stand at the
checker's, so it is the same if and only if none stands there.
-/
theorem block_comment_ends
    {code : Text}
    (opens : opensBlock code = true) :
    (check code =
      match checkedEnd? code with
      | none => some ⟨.openComment, 0⟩
      | some stop => flawFrom (.words true) stop (code.drop stop)) ∧
    (∀ acrossLines, skipBlanks acrossLines (.start code) =
      match readEnd? code with
      | none => ⟨⟨[], code.length⟩, some 0⟩
      | some stop => skipBlanks acrossLines ⟨code.drop stop, stop⟩) ∧
    readEnd? code = (checkedEnd? code).map (fun stop => stop + hashes (code.drop stop)) ∧
    (readEnd? code = checkedEnd? code ↔
      ∀ stop, checkedEnd? code = some stop → code[stop]? ≠ some Byte.hash) := by
  refine ⟨check_of_opensBlock opens, fun acrossLines => skipBlanks_of_opensBlock acrossLines opens,
    readEnd?_eq code, ?_⟩
  rw [readEnd?_eq]
  cases checkedEnd? code with
  | none => simp
  | some stop => simp [hashes_eq_zero_iff, List.head?_drop]

/-- A comment with a run of two hashes at its end, before a brace that is never closed. -/
theorem block_comment_ends_two :
    let code : Text := Text.ofString "## a ## \x7b"
    opensBlock code = true ∧ readEnd? code = checkedEnd? code := by
  refine ⟨by decide, (block_comment_ends (by decide)).2.2.2.mpr ?_⟩
  intro stop isEnd
  obtain rfl : 7 = stop := Option.some.inj isEnd
  decide

/-- Behind three hashes the reader meets the brace, and the checker is in a comment to the end. -/
theorem block_comment_three_hashes :
    let code : Text := Text.ofString "## a ### \x7b"
    opensBlock code = true ∧ checkedEnd? code = some 7 ∧ readEnd? code = some 8 ∧
      check code = none ∧
      skipBlanks true (.start code) = ⟨⟨[Byte.openBrace], 9⟩, none⟩ ∧
      flawFrom (.words true) 8 (code.drop 8) = some ⟨.openBrace, 9⟩ := by
  decide

end LittleScript.Source
