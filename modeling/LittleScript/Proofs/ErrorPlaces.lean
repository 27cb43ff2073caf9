import LittleScript.Proofs.GuardedAccess
import LittleScript.Proofs.JoinedScripts

namespace LittleScript

/-!
# Places of errors

The line and the column of an offset are what a reader counts, no other offset of the text has the
same ones, and the code frame shows that line with the caret exactly below the column, unless the
offset is at a line break.
-/

namespace Source

/-- A line of a text with a caret below the column of a place. -/
def caretFrame (place : Place) (line : Text) : Text :=
  let label := Text.ofNat place.line
  Text.ofString "  --> line " ++ label ++ Text.ofString ", column " ++ Text.ofNat place.column ++
    Text.ofString "\n " ++ label ++ Text.ofString " | " ++ dropReturns line ++
    Text.ofString "\n " ++ spaces label.length ++ Text.ofString " | " ++
    spaces (place.column - 1) ++ Text.ofString "^"

/-! ## Lines and columns -/

/-- A walk stays on its line and goes one column further with each byte, or ends on a later line. -/
theorem walk_cases
    (text : Text)
    (offset : Nat)
    (start : Place)
    (inside : offset ≤ text.length) :
    start.line < (walk text offset start).line ∨
      walk text offset start = ⟨start.line, start.column + offset⟩ := by
  induction text generalizing offset start with
  | nil =>
      obtain rfl : offset = 0 := Nat.le_zero.mp inside
      exact .inr rfl
  | cons byte rest inductionHypothesis =>
      cases offset with
      | zero =>
          exact .inr rfl
      | succ offset =>
          have insideRest : offset ≤ rest.length := Nat.le_of_succ_le_succ inside
          rw [walk]
          split
          · rcases inductionHypothesis offset ⟨start.line + 1, 1⟩ insideRest with below | same
            · exact .inl (Nat.lt_of_succ_lt below)
            · rw [same]
              exact .inl (Nat.lt_succ_self _)
          · rcases inductionHypothesis offset ⟨start.line, start.column + 1⟩ insideRest with
              below | same
            · exact .inl below
            · rw [same, Nat.add_assoc, Nat.add_comm 1]
              exact .inr rfl

/-- Walks of different lengths within a text do not end at the same place. -/
theorem eq_of_walk_eq
    {text : Text}
    {first second : Nat}
    {start : Place}
    (firstInside : first ≤ text.length)
    (secondInside : second ≤ text.length)
    (same : walk text first start = walk text second start) :
    first = second := by
  have further : ∀ {shorter longer : Nat}, shorter ≤ longer → longer ≤ text.length →
      walk text longer start = walk text shorter start → longer = shorter := by
    intro shorter longer le inside same
    obtain ⟨more, rfl⟩ := Nat.exists_eq_add_of_le le
    obtain ⟨front, back, rfl, rfl⟩ : ∃ front back, text = front ++ back ∧ front.length = shorter :=
      ⟨_, _, (List.take_append_drop shorter text).symm,
        List.length_take_of_le (Nat.le_trans le inside)⟩
    have insideRest : more ≤ back.length := by
      rw [List.length_append] at inside
      exact Nat.le_of_add_le_add_left inside
    rw [walk_append, walk_append_of_le (Nat.le_refl _)] at same
    rcases walk_cases back more (walk front front.length start) insideRest with below | onLine
    · rw [same] at below
      exact absurd below (Nat.lt_irrefl _)
    · rw [onLine] at same
      have sameColumn := congrArg Place.column same
      simp only at sameColumn
      omega
  rcases Nat.le_total first second with le | le
  · exact (further le secondInside same.symm).symm
  · exact further le firstInside same

/-! ## Code frames -/

/-- A cut leaves the pieces that are done where they are. -/
theorem splitFrom_done
    (cut : UInt8 → Bool)
    (text piece : Text)
    (done : List Text) :
    ∃ more, Text.splitFrom cut text piece done = done.reverse ++ more := by
  induction text generalizing piece done with
  | nil =>
      exact ⟨[piece.reverse], by simp [Text.splitFrom]⟩
  | cons byte rest inductionHypothesis =>
      rw [Text.splitFrom]
      split
      · obtain ⟨more, isMore⟩ := inductionHypothesis [] (piece.reverse :: done)
        exact ⟨piece.reverse :: more, by simp [isMore]⟩
      · exact inductionHypothesis (byte :: piece) done

/-- The piece at which a cut is becomes the next one, with some of the text behind it. -/
theorem getElem?_splitFrom
    (cut : UInt8 → Bool)
    (text piece : Text)
    (done : List Text) :
    ∃ back, (Text.splitFrom cut text piece done)[done.length]? = some (piece.reverse ++ back) := by
  induction text generalizing piece with
  | nil =>
      exact ⟨[], by simp [Text.splitFrom]⟩
  | cons byte rest inductionHypothesis =>
      rw [Text.splitFrom]
      split
      · obtain ⟨more, isMore⟩ := splitFrom_done cut rest [] (piece.reverse :: done)
        exact ⟨[], by simp [isMore]⟩
      · obtain ⟨back, isPiece⟩ := inductionHypothesis (byte :: piece)
        exact ⟨byte :: back, by simp [isPiece]⟩

/-- A walk to a byte that is no line break leads to its line, and to where it stands there. -/
theorem line_of_walk
    {text : Text}
    {offset : Nat}
    {byte : UInt8}
    {rest : Text}
    (here : text.drop offset = byte :: rest)
    (unbroken : (byte == Byte.newline) = false)
    (piece : Text)
    (done : List Text) :
    ∃ front back,
      front.length + 1 = (walk text offset ⟨done.length + 1, piece.length + 1⟩).column ∧
        (Text.splitFrom (· == Byte.newline) text piece done)[
          (walk text offset ⟨done.length + 1, piece.length + 1⟩).line - 1]? =
            some (front ++ byte :: back) := by
  induction text generalizing offset piece done with
  | nil =>
      rw [List.drop_nil] at here
      cases here
  | cons first text inductionHypothesis =>
      cases offset with
      | zero =>
          cases here
          obtain ⟨back, isPiece⟩ :=
            getElem?_splitFrom (· == Byte.newline) rest (byte :: piece) done
          refine ⟨piece.reverse, back, by simp [walk], ?_⟩
          rw [Text.splitFrom, unbroken]
          simpa [walk] using isPiece
      | succ offset =>
          have further : text.drop offset = byte :: rest := here
          cases breaks : first == Byte.newline with
          | true =>
              simp only [walk, Text.splitFrom, breaks, if_true]
              exact inductionHypothesis further [] (piece.reverse :: done)
          | false =>
              simp only [walk, Text.splitFrom, breaks, Bool.false_eq_true, if_false]
              exact inductionHypothesis further (first :: piece) done

/-- A byte that is no carriage return stays when those at the end of its line are dropped. -/
theorem dropReturns_append_cons
    (front : Text)
    {byte : UInt8}
    (notReturn : (byte == Byte.carriageReturn) = false)
    (back : Text) :
    ∃ shorter, dropReturns (front ++ byte :: back) = front ++ byte :: shorter := by
  refine ⟨dropReturns back, ?_⟩
  have stops : [byte].dropWhile (· == Byte.carriageReturn) = [byte] := by
    simp [notReturn]
  have whole : (front ++ byte :: back).reverse = back.reverse ++ ([byte] ++ front.reverse) := by
    simp
  rw [dropReturns, dropReturns, whole, List.dropWhile_append]
  split
  · next all =>
    rw [List.isEmpty_iff.mp all]
    simp [notReturn]
  · simp

/-- Where there is no line break the code frame shows the line with the caret below the column. -/
theorem codeFrame_eq
    {code : Text}
    {offset : Nat}
    {byte : UInt8}
    {rest : Text}
    (here : code.drop offset = byte :: rest)
    (unbroken : (byte == Byte.newline) = false)
    (notReturn : (byte == Byte.carriageReturn) = false) :
    ∃ line, (Text.lines code)[(place code offset).line - 1]? = some line ∧
      codeFrame code (place code offset) = caretFrame (place code offset) line := by
  have isSome : code ≠ [] := by
    rintro rfl
    rw [List.drop_nil] at here
    cases here
  have walks := place_of_ne_nil isSome offset
  obtain ⟨front, back, column, isLine⟩ := line_of_walk here unbroken [] []
  simp only [List.length_nil, Nat.zero_add] at column isLine
  rw [← walks] at column isLine
  refine ⟨front ++ byte :: back, isLine, ?_⟩
  have below : (place code offset).line ≠ 0 := by
    rw [walks, Guarded.walk_eq]
    exact Nat.succ_ne_zero _ ∘ (Nat.add_comm ..).trans
  obtain ⟨shorter, shown⟩ := dropReturns_append_cons front notReturn back
  have uncut : min (max (place code offset).column 1)
      ((dropReturns (front ++ byte :: back)).length + 1) = (place code offset).column := by
    rw [shown, ← column, List.length_append, List.length_cons]
    omega
  rw [codeFrame, if_neg (by simp [isSome, below])]
  simp only [Text.lines, Text.splitAt, isLine, uncut, caretFrame]

end Source

/-- A script error that points at an offset of a text: as line and column, and in the code frame. -/
structure ScriptError.PointsAt (error : ScriptError) (code : Text) (offset : Nat) : Prop where
  sameOffset : error.offset = offset
  inside : offset < code.length
  line : error.place.line = 1 + (code.take offset).count Byte.newline
  column : error.place.column =
    1 + ((code.take offset).reverse.takeWhile (· != Byte.newline)).length
  determined : ∀ other : Nat, other ≤ code.length → Source.place code other = error.place →
    other = offset
  frame : ∃ line, (Text.lines code)[error.place.line - 1]? = some line ∧
    error.codeFrame = Source.caretFrame error.place line

/-- An error that is located at a byte other than a line break points at it. -/
theorem ScriptError.locate_pointsAt
    (reason : Reason)
    {code : Text}
    {offset : Nat}
    {byte : UInt8}
    {rest : Text}
    (here : code.drop offset = byte :: rest)
    (unbroken : (byte == Byte.newline) = false)
    (notReturn : (byte == Byte.carriageReturn) = false) :
    (ScriptError.locate reason code offset).PointsAt code offset := by
  have inside : offset < code.length := by
    have longer := congrArg List.length here
    rw [List.length_drop, List.length_cons] at longer
    omega
  have walks := Source.place_of_ne_nil (List.ne_nil_of_length_pos (Nat.zero_lt_of_lt inside))
  constructor
  · rfl
  · exact inside
  · simp only [locate, walks, Guarded.walk_eq]
  · simp only [locate, walks, Guarded.walk_eq, ite_self]
    exact Nat.add_comm _ _
  · intro other within same
    simp only [locate, walks] at same
    exact Source.eq_of_walk_eq within (Nat.le_of_lt inside) same
  · exact Source.codeFrame_eq here unbroken notReturn

end LittleScript
