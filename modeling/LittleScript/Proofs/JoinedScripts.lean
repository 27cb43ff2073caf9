import LittleScript.Proofs.Completion
import LittleScript.Proofs.InputChunks

namespace LittleScript.Source

/-!
# Checking joined scripts

A script that stops between words without a flaw is behind the checker once a newline follows: what
stands on the next lines is checked as if it stood alone.  And a closing byte that nothing opened
stays the first flaw whatever follows.  So the checker accepts entered lines as a whole exactly when
it accepts each of their chunks.
-/

/-! ## Longer texts -/

theorem Region.behind_proper
    (region : Region)
    {next : Region}
    (offset : Nat)
    (proper : next.IsProper) :
    (region.behind offset next).IsProper := by
  cases next with
  | words atWordStart => exact Region.isProper_words atWordStart
  | quoted quote start =>
      simpa [Region.behind, Region.IsProper, Region.openQuote] using proper

theorem Region.behind_ne_words
    (region : Region)
    {next : Region}
    (offset : Nat)
    {atWordStart : Bool}
    (differs : next ≠ .words atWordStart) :
    region.behind offset next ≠ .words atWordStart := by
  cases next with
  | words other => exact differs
  | quoted quote start => exact Region.noConfusion

theorem flawFrom_of_passed
    {region next : Region}
    {text rest : Text}
    (passes : front region text = .passed next rest)
    (offset : Nat) :
    flawFrom region offset text =
      flawFrom (region.behind offset next) (offset + text.length - rest.length) rest := by
  rw [flawFrom_eq, passes]
  rfl

/-- Line breaks only move a flaw, except inside a word. -/
theorem flawFrom_lineBreaks
    {region : Region}
    (proper : region.IsProper)
    (notInside : region ≠ .words false)
    (offset : Nat)
    (breaks : Text)
    (lineBreaks : ∀ byte ∈ breaks, isLineBreak byte = true)
    (rest : Text) :
    flawFrom region offset (breaks ++ rest) = flawFrom region (offset + breaks.length) rest := by
  induction breaks generalizing offset with
  | nil =>
      rfl
  | cons byte breaks inductionHypothesis =>
      have isFirst := lineBreaks byte List.mem_cons_self
      have stays : region.behind offset region = region := by cases region <;> rfl
      rw [List.cons_append, flawFrom_of_passed (front_lineBreak proper notInside isFirst _), stays,
        inductionHypothesis _ fun other member => lineBreaks other (List.mem_cons_of_mem _ member)]
      congr 1
      simp only [List.length_cons, List.length_append]
      omega

/-- A longer text has the first flaw of what follows its front. -/
theorem Fronted.flawFrom_append
    {region next : Region}
    {text rest : Text}
    (found : Fronted region text (.passed next rest))
    (proper : region.IsProper)
    (offset : Nat)
    {more : Text}
    (goesOn : GoesOn rest more) :
    flawFrom region offset (text ++ more) =
      flawFrom (region.behind offset next) (offset + text.length - rest.length)
        (rest ++ more) := by
  obtain ⟨breaks, other, isBehind, isFront, lineBreaks, notInside⟩ := found.front_append goesOn
  have sized := congrArg List.length isBehind
  have shorter := found.passed_shorter.2
  simp only [List.length_append] at sized
  rw [flawFrom_of_passed isFront, isBehind]
  by_cases noBreaks : breaks = []
  · subst noBreaks
    rw [List.nil_append, List.length_append]
    congr 1
    simp only [List.length_nil] at sized
    omega
  · rw [flawFrom_lineBreaks (region.behind_proper offset (found.passed_proper proper))
      (region.behind_ne_words offset (notInside noBreaks)) _ breaks lineBreaks, List.length_append]
    congr 1
    omega

/-- Brackets are closed in the same place when more text follows. -/
theorem Fronted.flawFrom_brackets_append
    {region next : Region}
    {text inside rest : Text}
    (found : Fronted region text (.brackets inside next rest))
    (offset : Nat)
    (more : Text) :
    flawFrom region offset (text ++ more) =
      (flawFrom (.words true) (offset + 1) inside).or
        (flawFrom (region.behind offset next) (offset + inside.length + 2) (rest ++ more)) := by
  cases found with
  | brackets opens keeps closed =>
      have longer := Fronted.brackets opens keeps (balanced?_append closed more)
      rw [List.cons_append, flawFrom_eq, longer.front_eq]
      rfl

/-! ## Final flaws -/

theorem unfinishedFlaw_isIncomplete
    (offset : Nat)
    (region : Region)
    (text : Text) :
    (unfinishedFlaw offset region text).flaw.isIncomplete = true := by
  cases region with
  | words atWordStart =>
      simp only [unfinishedFlaw]
      split
      · rfl
      · split <;> rfl
  | quoted quote start =>
      cases text <;> rfl

/-- At the end of a text nothing is final. -/
theorem isIncomplete_of_flawFrom_nil
    {region : Region}
    {offset : Nat}
    {error : SyntaxError}
    (found : flawFrom region offset [] = some error) :
    error.flaw.isIncomplete = true := by
  cases region with
  | words atWordStart => cases found
  | quoted quote start =>
      cases found
      rfl

/-- A final flaw lies in the text, and stays the first one whatever follows. -/
theorem final_append
    {region : Region}
    {offset : Nat}
    {text : Text}
    {error : SyntaxError}
    (proper : region.IsProper)
    (found : flawFrom region offset text = some error)
    (final : error.flaw.isIncomplete = false)
    (more : Text) :
    flawFrom region offset (text ++ more) = some error ∧ error.offset < offset + text.length := by
  induction size : text.length using Nat.strongRecOn generalizing region offset text with
  | _ size inductionHypothesis =>
      subst size
      have isFront := fronted region text
      rw [flawFrom_eq] at found
      generalize front region text = met at isFront found
      cases met with
      | ended =>
          cases found
      | unfinished =>
          cases found
          rw [unfinishedFlaw_isIncomplete] at final
          cases final
      | stray =>
          cases isFront with
          | stray meets =>
              cases found
              refine ⟨?_, by simp⟩
              rw [flawFrom_eq, List.cons_append, meets]
              rfl
      | openBracket inside =>
          cases found
          cases final
      | brackets inside next rest =>
          rw [isFront.flawFrom_brackets_append]
          cases isFront with
          | brackets _ keeps closed =>
              have sized := length_of_bracketsEnd? closed
              simp only [Front.flaw] at found
              cases isInside : flawFrom (.words true) (offset + 1) inside with
              | some flaw =>
                  rw [isInside, Option.some_or, Option.some.injEq] at found
                  subst found
                  have within := (inductionHypothesis inside.length
                    (by rw [List.length_cons]; omega) (Region.isProper_words true) isInside rfl).2
                  refine ⟨rfl, ?_⟩
                  rw [List.length_cons]
                  omega
              | none =>
                  rw [isInside, Option.none_or] at found
                  have behind := inductionHypothesis rest.length
                    (by rw [List.length_cons]; omega) (region.behind_proper offset (keeps proper))
                    found rfl
                  refine ⟨behind.1, ?_⟩
                  rw [List.length_cons]
                  omega
      | passed next rest =>
          have isMore : rest ≠ [] := by
            rintro rfl
            rw [isIncomplete_of_flawFrom_nil found] at final
            cases final
          have shorter := isFront.passed_shorter.2
          have behind := inductionHypothesis rest.length shorter
            (region.behind_proper offset (isFront.passed_proper proper)) found rfl
          rw [isFront.flawFrom_append proper offset (.inl isMore)]
          exact ⟨behind.1, by omega⟩

/-! ## The next line -/

/-- Behind a text without a flaw the next line is checked as the beginning of a script. -/
theorem flawFrom_append_line
    {region : Region}
    {offset : Nat}
    {text : Text}
    (proper : region.IsProper)
    (sound : flawFrom region offset text = none)
    (line : Text) :
    flawFrom region offset (text ++ Byte.newline :: line) =
      flawFrom (.words true) (offset + text.length + 1) line := by
  induction size : text.length using Nat.strongRecOn generalizing region offset text with
  | _ size inductionHypothesis =>
      subst size
      have isFront := fronted region text
      rw [flawFrom_eq] at sound
      generalize front region text = met at isFront sound
      cases met with
      | ended =>
          cases isFront with
          | @ended atWordStart =>
              have passes : front (.words atWordStart) (Byte.newline :: line) =
                  .passed (.words true) line := rfl
              rw [List.nil_append, flawFrom_of_passed passes]
              congr 1
              simp only [List.length_cons, List.length_nil]
              omega
      | unfinished | openBracket =>
          cases sound
      | stray =>
          cases isFront with
          | stray => cases sound
      | brackets inside next rest =>
          rw [isFront.flawFrom_brackets_append]
          cases isFront with
          | brackets _ keeps closed =>
              have sized := length_of_bracketsEnd? closed
              obtain ⟨insideSound, behindSound⟩ := Option.or_eq_none_iff.mp sound
              rw [insideSound, Option.none_or, inductionHypothesis rest.length
                (by rw [List.length_cons]; omega) (region.behind_proper offset (keeps proper))
                behindSound rfl]
              congr 1
              rw [List.length_cons]
              omega
      | passed next rest =>
          have shorter := isFront.passed_shorter.2
          rw [isFront.flawFrom_append proper offset (.inr rfl), inductionHypothesis rest.length
            shorter (region.behind_proper offset (isFront.passed_proper proper)) sound rfl]
          congr 1
          omega

/-! ## Moved texts -/

/-- A region of a text that has been moved. -/
def Region.moved (distance : Nat) : Region → Region
  | .words atWordStart => .words atWordStart
  | .quoted quote start => .quoted quote (start + distance)

/-- An error in a text that has been moved. -/
def SyntaxError.moved (distance : Nat) (error : SyntaxError) : SyntaxError :=
  ⟨error.flaw, error.offset + distance⟩

theorem Region.behind_moved
    (region next : Region)
    (offset distance : Nat) :
    (region.moved distance).behind (offset + distance) next =
      (region.behind offset next).moved distance := by
  cases region <;> cases next <;> rfl

theorem unfinishedFlaw_moved
    (region : Region)
    (offset distance : Nat)
    (text : Text) :
    unfinishedFlaw (offset + distance) (region.moved distance) text =
      (unfinishedFlaw offset region text).moved distance := by
  cases region with
  | words atWordStart => rfl
  | quoted quote start =>
      cases text with
      | nil => rfl
      | cons byte rest =>
          simp [unfinishedFlaw, Region.moved, SyntaxError.moved, Nat.add_right_comm]

/-- The front of a text that has been moved has the flaws of the text. -/
theorem flaw_front_moved
    (judge : Region → Nat → Text → Option SyntaxError)
    (region : Region)
    (offset distance : Nat)
    (text : Text) :
    (front (region.moved distance) text).flaw judge (region.moved distance) offset text =
      (front region text).flaw judge (region.moved distance) offset text := by
  have samePlace : (region.moved distance).unplaced = region.unplaced := by cases region <;> rfl
  rw [← Front.flaw_unplaced, ← front_unplaced, samePlace, front_unplaced, Front.flaw_unplaced]

/-- The checker finds the same flaws wherever a text stands. -/
theorem flawFrom_moved
    (distance : Nat)
    (region : Region)
    (offset : Nat)
    (text : Text) :
    flawFrom (region.moved distance) (offset + distance) text =
      (flawFrom region offset text).map (·.moved distance) := by
  induction size : text.length using Nat.strongRecOn generalizing region offset text with
  | _ size inductionHypothesis =>
      subst size
      have found := fronted region text
      rw [flawFrom_eq, flaw_front_moved, flawFrom_eq region]
      generalize front region text = met at found
      cases met with
      | ended | openBracket =>
          rfl
      | unfinished =>
          rw [Front.flaw, unfinishedFlaw_moved]
          rfl
      | stray =>
          cases text <;> rfl
      | brackets inside next rest =>
          cases found with
          | brackets _ _ closed =>
              have sized := length_of_bracketsEnd? closed
              have isInside := inductionHypothesis inside.length (by rw [List.length_cons]; omega)
                (.words true) (offset + 1) inside rfl
              have isBehind := inductionHypothesis rest.length (by rw [List.length_cons]; omega)
                (region.behind offset next) (offset + inside.length + 2) rest rfl
              have places : offset + distance + inside.length + 2 =
                  offset + inside.length + 2 + distance := by omega
              rw [Front.flaw, Front.flaw, Option.map_or, ← isInside, ← isBehind,
                Region.behind_moved, places, Nat.add_right_comm offset distance 1]
              rfl
      | passed next rest =>
          have shorter := found.passed_shorter.2
          have isBehind := inductionHypothesis rest.length shorter (region.behind offset next)
            (offset + text.length - rest.length) rest rfl
          have places : offset + distance + text.length - rest.length =
              offset + text.length - rest.length + distance := by omega
          rw [Front.flaw, Front.flaw, ← isBehind, Region.behind_moved, places]

/-! ## Places in joined texts -/

theorem walk_append
    (before after : Text)
    (offset : Nat)
    (place : Place) :
    walk (before ++ after) (before.length + offset) place =
      walk after offset (walk before before.length place) := by
  induction before generalizing place with
  | nil =>
      simp [walk]
  | cons byte before inductionHypothesis =>
      rw [List.length_cons, Nat.add_right_comm, List.cons_append, walk, walk]
      split <;> exact inductionHypothesis _

/-- The place of an offset within a text does not depend on what follows. -/
theorem walk_append_of_le
    {before : Text}
    {offset : Nat}
    (within : offset ≤ before.length)
    (after : Text)
    (place : Place) :
    walk (before ++ after) offset place = walk before offset place := by
  induction before generalizing offset place with
  | nil =>
      obtain rfl : offset = 0 := by simpa using within
      simp [walk]
  | cons byte before inductionHypothesis =>
      cases offset with
      | zero => rfl
      | succ offset =>
          have withinRest : offset ≤ before.length := Nat.le_of_succ_le_succ within
          rw [List.cons_append, walk, walk]
          split <;> exact inductionHypothesis withinRest _

/-- Every newline of a text begins a line. -/
theorem line_walk_length
    (text : Text)
    (place : Place) :
    (walk text text.length place).line = place.line + text.count Byte.newline := by
  induction text generalizing place with
  | nil =>
      rfl
  | cons byte rest inductionHypothesis =>
      rw [List.length_cons, walk]
      split
      · rename_i isNewline
        rw [inductionHypothesis, eq_of_beq isNewline, List.count_cons_self, Nat.add_right_comm]
        rfl
      · rename_i notNewline
        rw [inductionHypothesis, List.count_cons_of_ne (by simpa using notNewline)]

/-- Lines above a text add to its lines only. -/
theorem walk_below
    (above : Nat)
    (text : Text)
    (offset : Nat)
    (place : Place) :
    walk text offset ⟨place.line + above, place.column⟩ =
      ⟨(walk text offset place).line + above, (walk text offset place).column⟩ := by
  induction text generalizing offset place with
  | nil =>
      cases offset <;> rfl
  | cons byte rest inductionHypothesis =>
      cases offset with
      | zero => rfl
      | succ offset =>
          rw [walk, walk]
          split
          · rw [Nat.add_right_comm]
            exact inductionHypothesis offset ⟨place.line + 1, 1⟩
          · exact inductionHypothesis offset ⟨place.line, place.column + 1⟩

theorem place_of_ne_nil
    {source : Text}
    (isSome : source ≠ [])
    (offset : Nat) :
    place source offset = walk source offset ⟨1, 1⟩ := by
  rw [place, if_neg (by simp [isSome]), Int.toNat_natCast]

/-- The place of a flaw does not depend on what follows the flaw. -/
theorem SyntaxError.place_append
    {error : SyntaxError}
    {code : Text}
    (within : error.offset < code.length)
    (more : Text) :
    error.place (code ++ more) = error.place code := by
  have isSome : code ≠ [] := List.ne_nil_of_length_pos (by omega)
  rw [place, place, place_of_ne_nil isSome,
    place_of_ne_nil (List.append_ne_nil_of_left_ne_nil isSome more),
    walk_append_of_le (Nat.le_of_lt within)]

/-- On the next line of a longer script a flaw is in the same column, below the lines before. -/
theorem SyntaxError.place_moved
    (error : SyntaxError)
    (code : Text)
    {line : Text}
    (isSome : line ≠ []) :
    (error.moved (code.length + 1)).place (code ++ Byte.newline :: line) =
      ⟨(error.place line).line + (code.count Byte.newline + 1), (error.place line).column⟩ := by
  have isMore : code ++ Byte.newline :: line ≠ [] := by simp
  have regrouped : error.offset + (code.length + 1) = code.length + (error.offset + 1) := by omega
  have newline : ∀ reached : Place, walk (Byte.newline :: line) (error.offset + 1) reached =
      walk line error.offset ⟨reached.line + 1, 1⟩ := fun _ => rfl
  have lines : 1 + code.count Byte.newline + 1 = 1 + (code.count Byte.newline + 1) := by omega
  rw [place, place, place_of_ne_nil isMore, place_of_ne_nil isSome, moved, regrouped, walk_append,
    newline, line_walk_length, lines]
  exact walk_below _ line error.offset ⟨1, 1⟩

/-! ## Scripts -/

/--
An error that is not for want of further input is final: whatever follows the script, the checker
reports it again, in the same place and with the same words.
-/
theorem check_append_of_final
    {code : Text}
    {error : SyntaxError}
    (found : check code = some error)
    (final : error.flaw.isIncomplete = false)
    (more : Text) :
    check (code ++ more) = some error ∧ error.place (code ++ more) = error.place code ∧
      error.describe (code ++ more) = error.describe code ∧
      isIncomplete (code ++ more) = false := by
  obtain ⟨foundAgain, within⟩ := final_append (Region.isProper_words true) found final more
  rw [Nat.zero_add] at within
  have samePlace := error.place_append within more
  have checked : check (code ++ more) = some error := foundAgain
  refine ⟨checked, samePlace, ?_, ?_⟩
  · rw [SyntaxError.describe, SyntaxError.describe, samePlace]
  · rw [isIncomplete, checked]
    exact final

/-- A closing brace that nothing opened stays the error, even before an open quote. -/
theorem check_append_of_final_stray :
    check (Text.ofString "set a \x7b1\x7d \x7d") = some ⟨.strayCloser Byte.closeBrace, 10⟩ ∧
      check (Text.ofString "set a \x7b1\x7d \x7d" ++ Text.ofString "\"") =
        some ⟨.strayCloser Byte.closeBrace, 10⟩ :=
  have found : check (Text.ofString "set a \x7b1\x7d \x7d") =
      some ⟨.strayCloser Byte.closeBrace, 10⟩ := by decide +kernel
  ⟨found, (check_append_of_final found rfl (Text.ofString "\"")).1⟩

/-- Behind a script without errors the next line is checked alone, and its error is moved. -/
theorem check_append_line
    {code : Text}
    (sound : check code = none)
    (line : Text) :
    check (code ++ Byte.newline :: line) = (check line).map (·.moved (code.length + 1)) := by
  have behind := flawFrom_append_line (Region.isProper_words true) sound line
  rw [Nat.zero_add] at behind
  have moved := flawFrom_moved (code.length + 1) (.words true) 0 line
  rw [Nat.zero_add] at moved
  exact behind.trans moved

/-- A script that does not wait for input is accepted with the next line when both are. -/
theorem check_append_line_eq_none_iff
    {code : Text}
    (complete : isIncomplete code = false)
    (line : Text) :
    check (code ++ Byte.newline :: line) = none ↔ check code = none ∧ check line = none := by
  cases found : check code with
  | none =>
      simp [check_append_line found]
  | some error =>
      have final : error.flaw.isIncomplete = false := by simpa [isIncomplete, found] using complete
      have foundAgain : check (code ++ Byte.newline :: line) = some error :=
        (final_append (Region.isProper_words true) found final _).1
      simp [foundAgain]

/-- Scripts that do not wait for input, and a last one, are accepted together when each is. -/
theorem check_joined_eq_none_iff
    {codes : List Text}
    (complete : ∀ code ∈ codes.dropLast, isIncomplete code = false) :
    check (Repl.joined codes) = none ↔ ∀ code ∈ codes, check code = none := by
  induction codes with
  | nil =>
      simp [Repl.joined_nil, check, scan]
  | cons code rest inductionHypothesis =>
      by_cases isLast : rest = []
      · simp [isLast, Repl.joined_singleton]
      · rw [List.dropLast_cons_of_ne_nil isLast] at complete
        have completeBehind : ∀ other ∈ rest.dropLast, isIncomplete other = false :=
          fun other member => complete other (List.mem_cons_of_mem _ member)
        rw [Repl.joined_cons code isLast,
          check_append_line_eq_none_iff (complete code List.mem_cons_self),
          inductionHypothesis completeBehind, List.forall_mem_cons]

/-- Entered lines are accepted as a whole when each of their chunks is. -/
theorem check_lines_eq_none_iff
    (lines : List Text) :
    check (Repl.joined lines) = none ↔
      ∀ chunk ∈ Repl.chunks (lines.map .line), check chunk.code = none := by
  have complete : ∀ code ∈ ((Repl.chunks (lines.map .line)).map Repl.Chunk.code).dropLast,
      isIncomplete code = false := by
    rw [← List.map_dropLast]
    intro code member
    obtain ⟨chunk, isChunk, rfl⟩ := List.mem_map.mp member
    exact Repl.finished_of_mem_dropLast chunk isChunk
  rw [← Repl.joined_chunks, check_joined_eq_none_iff complete, List.forall_mem_map]

/--
The checker composes over newlines: behind a script without errors it accepts the next line, or
reports the error of that line in the same column, as many lines and bytes further down as there are
before it.  So it accepts entered lines exactly when it accepts each of their chunks.
-/
theorem check_newline :
    (∀ code line : Text, check code = none →
      (check (code ++ Byte.newline :: line) = none ↔ check line = none) ∧
        ∀ error, check line = some error →
          ∃ moved, check (code ++ Byte.newline :: line) = some moved ∧
            moved.flaw = error.flaw ∧ moved.offset = error.offset + (code.length + 1) ∧
              (moved.place (code ++ Byte.newline :: line)).line =
                (error.place line).line + (code.count Byte.newline + 1) ∧
              (moved.place (code ++ Byte.newline :: line)).column = (error.place line).column) ∧
      ∀ lines : List Text, check (Repl.joined lines) = none ↔
        ∀ chunk ∈ Repl.chunks (lines.map .line), check chunk.code = none := by
  refine ⟨fun code line sound => ⟨?_, fun error found => ?_⟩, check_lines_eq_none_iff⟩
  · rw [check_append_line sound, Option.map_eq_none_iff]
  · have isSome : line ≠ [] := by
      rintro rfl
      cases found
    have samePlace := error.place_moved code isSome
    refine ⟨error.moved (code.length + 1), ?_, rfl, rfl, by rw [samePlace], by rw [samePlace]⟩
    rw [check_append_line sound, found]
    rfl

/-- A comment at the end of a script ends with the line. -/
theorem check_newline_comment :
    check (Text.ofString "set a 1 # \x7b") = none ∧
      ∃ moved, check (Text.ofString "set a 1 # \x7b\nset b ]") = some moved ∧
        moved.flaw = .strayCloser Byte.closeBracket ∧ moved.offset = 18 :=
  have sound : check (Text.ofString "set a 1 # \x7b") = none := by decide +kernel
  have found : check (Text.ofString "set b ]") = some ⟨.strayCloser Byte.closeBracket, 6⟩ := by
    decide +kernel
  have ⟨moved, isFound, flaw, offset, _⟩ :=
    (check_newline.1 _ (Text.ofString "set b ]") sound).2 _ found
  ⟨sound, moved, isFound, flaw, offset⟩

end LittleScript.Source
