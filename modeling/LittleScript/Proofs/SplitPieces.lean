import LittleScript.Proofs.ListCommands

namespace LittleScript

/-!
# The pieces of a text

The command `split` cuts a text at each byte of a set.  The pieces hold everything else, also where
they are empty, so that the text comes back when the bytes at which it was cut are put between them.
-/

namespace Text

/-- Put bytes in order between neighbouring pieces. -/
def interleave : List Text → Text → Text
  | [], _ => []
  | [piece], _ => piece
  | piece :: rest, [] => piece ++ interleave rest []
  | piece :: rest, byte :: bytes => piece ++ byte :: interleave rest bytes

variable (cut : UInt8 → Bool)

/-- What is cut off already stands in front, and the piece at hand in front of the next one. -/
theorem splitFrom_eq
    (text piece : Text)
    (done : List Text) :
    splitFrom cut text piece done =
      done.reverse ++ (splitAt cut text).modifyHead (piece.reverse ++ ·) := by
  induction text generalizing piece done with
  | nil =>
      simp [splitFrom, splitAt]
  | cons byte rest inductionHypothesis =>
      rw [splitAt, splitFrom, splitFrom]
      split
      · rw [inductionHypothesis, inductionHypothesis [] [[].reverse]]
        simp
      · rw [inductionHypothesis, inductionHypothesis [byte] []]
        cases splitAt cut rest <;> simp

/-- A byte of the set ends a piece, and any other one begins or continues it. -/
theorem splitAt_cons
    (byte : UInt8)
    (rest : Text) :
    splitAt cut (byte :: rest) =
      if cut byte then [] :: splitAt cut rest
      else (splitAt cut rest).modifyHead (byte :: ·) := by
  rw [splitAt, splitFrom]
  split
  · rw [splitFrom_eq]
    cases splitAt cut rest <;> rfl
  · rw [splitFrom_eq]
    rfl

theorem length_splitAt
    (text : Text) :
    (splitAt cut text).length = 1 + text.countP cut := by
  induction text with
  | nil => rfl
  | cons byte rest inductionHypothesis =>
      rw [splitAt_cons, List.countP_cons]
      split
      · rw [List.length_cons, inductionHypothesis, Nat.add_assoc]
      · rw [List.length_modifyHead, inductionHypothesis, Nat.add_zero]

theorem splitAt_ne_nil
    (text : Text) :
    splitAt cut text ≠ [] := by
  intro isEmpty
  have counted := length_splitAt cut text
  rw [isEmpty, List.length_nil] at counted
  omega

/-- No piece holds a byte at which the text is cut. -/
theorem uncut_of_mem_splitAt
    (text : Text) :
    ∀ piece ∈ splitAt cut text, ∀ byte ∈ piece, cut byte = false := by
  induction text with
  | nil =>
      intro piece isPiece byte isByte
      obtain rfl := List.mem_singleton.mp isPiece
      cases isByte
  | cons first rest inductionHypothesis =>
      rw [splitAt_cons]
      split
      case isTrue =>
        intro piece isPiece byte isByte
        rcases List.mem_cons.mp isPiece with rfl | isLater
        · cases isByte
        · exact inductionHypothesis piece isLater byte isByte
      case isFalse uncut =>
        obtain ⟨begun, later, pieces⟩ := List.exists_cons_of_ne_nil (splitAt_ne_nil cut rest)
        rw [pieces] at inductionHypothesis ⊢
        intro piece isPiece byte isByte
        rcases List.mem_cons.mp isPiece with rfl | isLater
        · rcases List.mem_cons.mp isByte with rfl | isBehind
          · simpa using uncut
          · exact inductionHypothesis begun List.mem_cons_self byte isBehind
        · exact inductionHypothesis piece (List.mem_cons_of_mem _ isLater) byte isByte

/-- A byte in front of the first piece comes in front of the whole text. -/
theorem interleave_modifyHead
    (byte : UInt8)
    {pieces : List Text}
    (notEmpty : pieces ≠ [])
    (bytes : Text) :
    interleave (pieces.modifyHead (byte :: ·)) bytes = byte :: interleave pieces bytes := by
  obtain ⟨piece, rest, rfl⟩ := List.exists_cons_of_ne_nil notEmpty
  cases rest with
  | nil => rfl
  | cons next rest => cases bytes <;> rfl

/-- The pieces with the bytes between them at which the text was cut are the text. -/
theorem interleave_splitAt
    (text : Text) :
    interleave (splitAt cut text) (text.filter cut) = text := by
  induction text with
  | nil => rfl
  | cons byte rest inductionHypothesis =>
      rw [splitAt_cons, List.filter_cons]
      split
      · obtain ⟨begun, later, pieces⟩ := List.exists_cons_of_ne_nil (splitAt_ne_nil cut rest)
        rw [pieces] at inductionHypothesis ⊢
        rw [interleave, inductionHypothesis, List.nil_append]
        exact List.cons_ne_nil _ _
      · rw [interleave_modifyHead byte (splitAt_ne_nil cut rest), inductionHypothesis]

end Text

namespace Eval

variable {σ : Type}

/--
Splitting a text at a set of bytes answers a list, which reads back without an error as one piece
more than the text has bytes of the set.  No piece has such a byte, and with these bytes of the text
put between its pieces again, in order, the list is the text.  Where no set is given, it is that of
the space.
-/
theorem split_loses_nothing
    (run : Run σ)
    (rounds : Nat)
    (text separators : Text)
    (more : List Text)
    (machine : Machine σ) :
    callBuiltin run rounds .split [text] machine =
        callBuiltin run rounds .split [text, [Byte.space]] machine ∧
      ∃ value pieces,
        callBuiltin run rounds .split (text :: separators :: more) machine =
            .ok (.value value) machine ∧
          (∀ (nested : Run σ) (reader : Machine σ), reader.interpreter.error = none →
            readList nested value reader = .ok pieces reader) ∧
          pieces.length = 1 + text.countP separators.contains ∧
          (∀ piece ∈ pieces, ∀ byte ∈ piece, byte ∉ separators) ∧
          Text.interleave pieces (text.filter separators.contains) = text := by
  refine ⟨rfl, ListText.write (text.splitAt separators.contains),
    text.splitAt separators.contains, rfl, ?reads, Text.length_splitAt _ _, ?uncut,
    Text.interleave_splitAt _ _⟩
  case reads =>
    intro nested reader noError
    exact readList_written nested _ noError
  case uncut =>
    intro piece isPiece byte isByte
    have uncut := Text.uncut_of_mem_splitAt separators.contains text piece isPiece byte isByte
    simpa using uncut

/-- A text with cuts at its front, at its end and in a row, and with bytes that lists guard. -/
def cutText : Text :=
  [Byte.semicolon, 0x61, Byte.openBrace, Byte.colon, Byte.semicolon, Byte.dollar, Byte.colon]

/-- A text with two kinds of separators has one piece more than separators, some of them empty. -/
theorem split_loses_nothing_empty_pieces :
    (Machine.start () {} {}).interpreter.error = none ∧
      ∃ value pieces,
        callBuiltin runCode 9 .split [cutText, [Byte.semicolon, Byte.colon]]
            (Machine.start () {} {}) = .ok (.value value) (Machine.start () {} {}) ∧
          readList runCode value (Machine.start () {} {}) =
            .ok pieces (Machine.start () {} {}) ∧
          pieces.length = 5 ∧
          Text.interleave pieces [Byte.semicolon, Byte.colon, Byte.semicolon, Byte.colon] =
            cutText := by
  obtain ⟨-, value, pieces, splits, reads, counted, -, rejoined⟩ :=
    split_loses_nothing runCode 9 cutText [Byte.semicolon, Byte.colon] [] (Machine.start () {} {})
  exact ⟨rfl, value, pieces, splits, reads runCode _ rfl, counted, rejoined⟩

end Eval

end LittleScript
