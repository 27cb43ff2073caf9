import LittleScript.Proofs.LongIntegers
import LittleScript.Proofs.VariableReading

namespace LittleScript

/-!
# Commands on lists

A command that is given a list as text works on the elements that were written, whatever bytes they
hold: it reads the text without running anything in it, and it writes its result as a list again.
Positions and bounds are what their texts read as, and a bound outside of the list is moved to its
end.  An integer that does not have 64 bits is no bound, though: as a start it counts as zero.
-/

variable {σ : Type}

namespace Command

/-! ## Stretches of a list -/

/-- The elements from one position up to, not including, another, in a list counted from `offset`. -/
theorem map_filter_zipIdx
    {α : Type}
    (items : List α)
    (first last : Nat) :
    ∀ offset, ((items.zipIdx offset).filter fun entry =>
        decide (first ≤ entry.2 ∧ entry.2 < last)).map Prod.fst =
      (items.drop (first - offset)).take (last - max first offset) := by
  induction items with
  | nil =>
      simp
  | cons item rest inductionHypothesis =>
      intro offset
      have later := inductionHypothesis (offset + 1)
      rw [List.zipIdx_cons]
      by_cases before : offset < first
      · have skipped : first - offset = first - (offset + 1) + 1 := by omega
        have sameStart : max first offset = max first (offset + 1) := by omega
        rw [List.filter_cons_of_neg (by simp; omega), later, skipped, sameStart,
          List.drop_succ_cons]
      · have noSkip : first - offset = 0 := by omega
        have noSkipLater : first - (offset + 1) = 0 := by omega
        have begun : max first offset = offset := by omega
        have begunLater : max first (offset + 1) = offset + 1 := by omega
        rw [noSkipLater, begunLater] at later
        rw [noSkip, begun]
        by_cases inside : offset < last
        · have room : last - offset = last - (offset + 1) + 1 := by omega
          rw [List.filter_cons_of_pos (by simp; omega), List.map_cons, later, room]
          rfl
        · have noRoom : last - offset = 0 := by omega
          have noRoomLater : last - (offset + 1) = 0 := by omega
          rw [List.filter_cons_of_neg (by simp; omega), later, noRoom, noRoomLater]
          rfl

/-- A segment has the elements whose position lies within its bounds. -/
theorem segment_eq_filter
    {α : Type}
    (items : List α)
    (start stop : Int) :
    segment items start stop =
      (items.zipIdx.filter fun entry =>
        decide (max start 0 ≤ (entry.2 : Int) ∧ (entry.2 : Int) < min stop items.length)).map
          Prod.fst := by
  have byNumber := map_filter_zipIdx items (max start 0).toNat (min stop items.length).toNat 0
  have sameBounds : ∀ entry : α × Nat,
      decide (max start 0 ≤ (entry.2 : Int) ∧ (entry.2 : Int) < min stop items.length) =
        decide ((max start 0).toNat ≤ entry.2 ∧
          entry.2 < (min stop items.length).toNat) := by
    intro entry
    rw [decide_eq_decide]
    omega
  simp only [sameBounds]
  rw [byNumber, segment]
  simp

/-! ## Bounds that are written as integers -/

/-- The start that an integer names: one too great for 64 bits counts as zero. -/
def startOf (number : Int) : Int :=
  if number < Integer.limit then number else 0

/--
The end that an integer names: beyond 64 bits it is the least integer or, if it is not even near to
a finite number, the end of the list.
-/
def stopOf (size : Nat) (number : Int) : Int :=
  if -(Integer.limit : Int) ≤ number ∧ number < Integer.limit then number
  else if number.natAbs < Binary64.leastInfinite then -(Integer.limit : Int)
  else size

/-- The start of a stretch that is written as an integer. -/
theorem max_toIntD_ofInt
    (number : Int) :
    max ((Text.ofInt number).toIntD 0).toInt 0 = max (startOf number) 0 := by
  rw [Text.toIntD, Text.toInt?_ofInt]
  by_cases fits : -(Integer.limit : Int) ≤ number ∧ number < Integer.limit
  · rw [if_pos fits, Option.getD_some, Integer.toInt_ofInt fits, startOf, if_pos fits.2]
  · have counts : max (startOf number) 0 = 0 := by
      unfold startOf Integer.limit at *
      split <;> omega
    rw [if_neg fits, counts]
    split <;> rfl

/-- The end of a stretch that is written as an integer. -/
theorem rangeEnd_ofInt
    (size : Nat)
    (number : Int)
    (rest : List Text) :
    rangeEnd size (Text.ofInt number :: rest) = stopOf size number := by
  simp only [rangeEnd, stopOf, Text.toInt?_ofInt]
  by_cases fits : -(Integer.limit : Int) ≤ number ∧ number < Integer.limit
  · simp [if_pos fits, Integer.toInt_ofInt fits]
  · rw [if_neg fits, if_neg fits]
    split <;> rfl

/-! ## Rounds of a loop over a list -/

open Eval (hasError_bind_apply isStopping_bind_apply bind_of_ok)

/--
The rounds of a loop over elements, which give the results of the body: each assigns an element to
the variable and runs the body, which leaves no error and does not end the code of the frame.
-/
inductive Rounds (run : Run σ) (name body : Text) :
    List Text → Machine σ → List Text → Machine σ → Prop where
  | none (machine : Machine σ) : Rounds run name body [] machine [] machine
  | round {item value : Text} {rest values : List Text} {stored : Option Text}
      {machine bound after last : Machine σ}
      (binds : Eval.setVariable run name item .own machine = .ok stored bound)
      (runs : run body false bound = .ok value after)
      (unfailed : after.interpreter.error = Option.none)
      (staying : after.interpreter.currentFrame.stopping = false)
      (later : Rounds run name body rest after values last) :
      Rounds run name body (item :: rest) machine (value :: values) last

/-- A loop collects what is not empty of the results of its rounds. -/
theorem Rounds.eachItem_eq
    {run : Run σ}
    {name body : Text}
    {items values : List Text}
    {machine last : Machine σ}
    (rounds : Rounds run name body items machine values last)
    (results : List Text) :
    eachItem run name body items results machine =
      .ok (results.reverse ++ values.filter fun value => !value.isEmpty) last := by
  induction rounds generalizing results with
  | none machine =>
      simp [eachItem]
  | @round item value rest values stored machine bound after last binds runs unfailed staying later
      inductionHypothesis =>
      have going : isInterrupted after = .ok false after := by
        rw [isInterrupted, hasError_bind_apply, isStopping_bind_apply, unfailed, staying]
        rfl
      rw [eachItem, bind_of_ok binds, bind_of_ok runs, bind_of_ok going]
      simp only [Bool.false_eq_true, if_false]
      rw [inductionHypothesis]
      cases empty : value.isEmpty <;> simp [empty]

end Command

namespace Eval

/-- The text of a list is read as the list, and nothing else happens. -/
theorem readList_written
    (run : Run σ)
    (items : List Text)
    {machine : Machine σ}
    (noError : machine.interpreter.error = none) :
    readList run (ListText.write items) machine = .ok items machine := by
  have read := words_written ⟨false, true⟩ run ((ListText.write items).length + 1) machine noError
    items (Nat.lt_succ_self _)
  rw [readList, bind_of_ok read]
  rfl

/--
A loop variable without a watch holds the element that is assigned to it, in the current frame, if
the host does not listen for assignments there.
-/
theorem setVariable_own_of_unwatched
    (run : Run σ)
    {name : Text}
    (named : name ≠ [])
    (item : Text)
    {machine : Machine σ}
    (inside : machine.interpreter.current < machine.interpreter.frames.size)
    (unheard : machine.interpreter.current = rootFrame →
      machine.interpreter.callbacks.setVariable = none)
    (unwatched : ∀ held, machine.interpreter.currentFrame.bindings.get? name = some held →
      held.watch = []) :
    setVariable run name item .own machine =
        .ok (some item) (storing .own name item machine) ∧
      ∃ entry, (storing .own name item machine).interpreter.visible? name =
          some (machine.interpreter.current, entry) ∧
        entry.value = item ∧ entry.watch = [] := by
  have isOwner : owner .own name machine.interpreter = machine.interpreter.current := by
    rw [owner]
    cases assigned : Composed.assigned? .own name machine.interpreter with
    | none => rfl
    | some found =>
        obtain ⟨held, -, isFound⟩ := Option.map_eq_some_iff.mp assigned
        exact congrArg Prod.fst isFound.symm
  have noWatch : ownWatch .own name machine.interpreter = [] := by
    rw [ownWatch]
    cases assigned : Composed.assigned? .own name machine.interpreter with
    | none => rfl
    | some found =>
        obtain ⟨held, known, isFound⟩ := Option.map_eq_some_iff.mp assigned
        cases isFound
        exact unwatched held known
  have isStored : storedIn .own name machine.interpreter = machine.interpreter.current := isOwner
  have approved : approve machine.interpreter.current name item machine =
      .ok (some item) machine := by
    rw [approve]
    split
    case isTrue atRoot =>
      exact mediate_of_unhandled name item (unheard (beq_iff_eq.mp atRoot))
    case isFalse => rfl
  refine ⟨setVariable_of_approved run named item (isStored ▸ inside) (isOwner ▸ approved)
    fun _ => noWatch, storedEntry .own name item machine.interpreter, ?_,
    storedEntry_value .own name item _, (storedEntry_watch (by decide) name item _).trans noWatch⟩
  rw [storing, isStored]
  exact Interpreter.visible?_putVariable inside (.inl rfl) _

section Elements

variable
  (run : Run σ)
  (rounds : Nat)
  (items : List Text)
  {machine : Machine σ}
  (noError : machine.interpreter.error = none)

include noError

/-- The element at a position. -/
theorem index_eq
    {text : Text}
    {position : Int64}
    (isPosition : text.toInt? = some position) :
    callBuiltin run rounds .index [ListText.write items, text] machine =
      .ok (.value (if position < 0 then [] else items.getD position.toInt.toNat [])) machine := by
  refine (bind_of_ok (readList_written run items noError)).trans ?_
  simp only [isPosition]
  rfl

theorem index_inside
    {text : Text}
    {position : Int64}
    (isPosition : text.toInt? = some position)
    {place : Nat}
    (inside : place < items.length)
    (isPlace : position.toInt = place) :
    callBuiltin run rounds .index [ListText.write items, text] machine =
      .ok (.value items[place]) machine := by
  have notNegative : ¬position < 0 := by
    rw [Int64.lt_iff_toInt_lt]
    simp [isPlace]
  rw [index_eq run rounds items noError isPosition, if_neg notNegative, isPlace]
  simp [inside]

theorem index_outside
    {text : Text}
    {position : Int64}
    (isPosition : text.toInt? = some position)
    (outside : position.toInt < 0 ∨ (items.length : Int) ≤ position.toInt) :
    callBuiltin run rounds .index [ListText.write items, text] machine =
      .ok (.value []) machine := by
  rw [index_eq run rounds items noError isPosition]
  split
  case isTrue => rfl
  case isFalse notNegative =>
    rw [Int64.lt_iff_toInt_lt] at notNegative
    have beyond : items.length ≤ position.toInt.toNat := by
      simp at notNegative
      omega
    rw [List.getD_eq_getElem?_getD, List.getElem?_eq_none beyond]
    rfl

/-- The element at a position that is written as an integer. -/
theorem index_ofInt_inside
    {number : Int}
    {place : Nat}
    (inside : place < items.length)
    (isPlace : number = place)
    (small : number < Integer.limit) :
    callBuiltin run rounds .index [ListText.write items, Text.ofInt number] machine =
      .ok (.value items[place]) machine := by
  have fits : -(Integer.limit : Int) ≤ number ∧ number < Integer.limit :=
    ⟨by unfold Integer.limit; omega, small⟩
  have isPosition := (Text.toInt?_ofInt number).trans (if_pos fits)
  exact index_inside run rounds items noError isPosition inside
    ((Integer.toInt_ofInt fits).trans isPlace)

/-- An integer outside of the list is read as a position outside of it, or as none. -/
theorem index_ofInt_outside
    {number : Int}
    (outside : number < 0 ∨ (items.length : Int) ≤ number) :
    callBuiltin run rounds .index [ListText.write items, Text.ofInt number] machine =
      .ok (.value []) machine := by
  cases isPosition : (Text.ofInt number).toInt? with
  | none =>
      refine (bind_of_ok (readList_written run items noError)).trans ?_
      simp only [isPosition]
      rfl
  | some position =>
      refine index_outside run rounds items noError isPosition ?_
      rw [Text.toInt?_ofInt] at isPosition
      split at isPosition
      case isTrue fits =>
        rw [← Option.some.inj isPosition, Integer.toInt_ofInt fits]
        exact outside
      case isFalse =>
        split at isPosition
        · rw [← Option.some.inj isPosition]
          exact .inl (by decide)
        · cases isPosition

/-- The elements between two bounds. -/
theorem slice_between
    (startText : Text)
    (rest : List Text) :
    callBuiltin run rounds .slice (ListText.write items :: startText :: rest) machine =
      .ok (.value (ListText.write ((items.zipIdx.filter fun entry =>
        decide (max (startText.toIntD 0).toInt 0 ≤ (entry.2 : Int) ∧
          (entry.2 : Int) < min (Command.rangeEnd items.length rest) items.length)).map
            Prod.fst))) machine := by
  refine (bind_of_ok (readList_written run items noError)).trans ?_
  rw [← Command.segment_eq_filter]
  rfl

/-- The elements from a start on. -/
theorem slice_from
    (startText : Text) :
    callBuiltin run rounds .slice [ListText.write items, startText] machine =
      .ok (.value (ListText.write ((items.zipIdx.filter fun entry =>
        decide (max (startText.toIntD 0).toInt 0 ≤ (entry.2 : Int))).map Prod.fst))) machine := by
  rw [slice_between run rounds items noError]
  refine congrArg (fun kept : List (Text × Nat) => EStateM.Result.ok (Reply.value
    (ListText.write (kept.map Prod.fst))) machine) (List.filter_congr fun entry member => ?_)
  have inside : entry.2 < items.length := List.snd_lt_of_mem_zipIdx member
  have upToEnd : Command.rangeEnd items.length [] = (items.length : Int) := rfl
  rw [decide_eq_decide, upToEnd]
  omega

end Elements

/--
The commands on lists work on the elements of the list that is written in their argument.  None of
them changes the machine or runs anything, except for the body of a loop, which runs once for each
element in order with the loop variable assigned to it, whatever the body does as long as it leaves
no error and does not end the code of the frame.
-/
theorem list_commands_compute_on_elements
    (run : Run σ)
    (rounds : Nat)
    (items : List Text)
    {machine : Machine σ}
    (noError : machine.interpreter.error = none) :
    (∀ number : Int64, (Integer.text number).toInt? = some number) ∧
    callBuiltin run rounds .count [ListText.write items] machine =
      .ok (.value (Text.ofInt items.length)) machine ∧
    (∀ (text : Text) (position : Int64), text.toInt? = some position →
      (∀ (place : Nat) (inside : place < items.length), position.toInt = place →
        callBuiltin run rounds .index [ListText.write items, text] machine =
          .ok (.value items[place]) machine) ∧
      (position.toInt < 0 ∨ (items.length : Int) ≤ position.toInt →
        callBuiltin run rounds .index [ListText.write items, text] machine =
          .ok (.value []) machine)) ∧
    (∀ number : Int,
      (∀ (place : Nat) (inside : place < items.length), number = place →
        number < Integer.limit →
        callBuiltin run rounds .index [ListText.write items, Text.ofInt number] machine =
          .ok (.value items[place]) machine) ∧
      (number < 0 ∨ (items.length : Int) ≤ number →
        callBuiltin run rounds .index [ListText.write items, Text.ofInt number] machine =
          .ok (.value []) machine)) ∧
    (∀ item : Text,
      (∀ place : Nat, items[place]? = some item →
        (∀ earlier < place, items[earlier]? ≠ some item) →
        callBuiltin run rounds .indexOf [ListText.write items, item] machine =
          .ok (.value (Text.ofInt place)) machine) ∧
      (item ∉ items →
        callBuiltin run rounds .indexOf [ListText.write items, item] machine =
          .ok (.value []) machine)) ∧
    (∀ (startText : Text) (start : Int64), startText.toInt? = some start →
      callBuiltin run rounds .slice [ListText.write items, startText] machine =
        .ok (.value (ListText.write ((items.zipIdx.filter fun entry =>
          decide (max start.toInt 0 ≤ (entry.2 : Int))).map Prod.fst))) machine ∧
      ∀ (stopText : Text) (stop : Int64), stopText.toInt? = some stop →
        callBuiltin run rounds .slice [ListText.write items, startText, stopText] machine =
          .ok (.value (ListText.write ((items.zipIdx.filter fun entry =>
            decide (max start.toInt 0 ≤ (entry.2 : Int) ∧
              (entry.2 : Int) < min stop.toInt items.length)).map Prod.fst))) machine) ∧
    (∀ start : Int,
      callBuiltin run rounds .slice [ListText.write items, Text.ofInt start] machine =
        .ok (.value (ListText.write ((items.zipIdx.filter fun entry =>
          decide (max (Command.startOf start) 0 ≤ (entry.2 : Int))).map Prod.fst))) machine ∧
      ∀ stop : Int,
        callBuiltin run rounds .slice
            [ListText.write items, Text.ofInt start, Text.ofInt stop] machine =
          .ok (.value (ListText.write ((items.zipIdx.filter fun entry =>
            decide (max (Command.startOf start) 0 ≤ (entry.2 : Int) ∧
              (entry.2 : Int) < min (Command.stopOf items.length stop) items.length)).map
                Prod.fst))) machine) ∧
    (∀ (name body : Text) (values : List Text) (last : Machine σ),
      Command.Rounds run name body items machine values last →
      callBuiltin run rounds .forEach [name, ListText.write items, body] machine =
          .ok (.value (ListText.write (values.filter fun value => !value.isEmpty))) last ∧
        (name = Text.ofString "i" →
          callBuiltin run rounds .forEach [ListText.write items, body] machine =
            .ok (.value (ListText.write (values.filter fun value => !value.isEmpty))) last)) ∧
    ∀ (name item : Text) (before : Machine σ), name ≠ [] →
      before.interpreter.current < before.interpreter.frames.size →
      (before.interpreter.current = rootFrame →
        before.interpreter.callbacks.setVariable = none) →
      (∀ held, before.interpreter.currentFrame.bindings.get? name = some held →
        held.watch = []) →
      setVariable run name item .own before =
          .ok (some item) (storing .own name item before) ∧
        ∃ entry, (storing .own name item before).interpreter.visible? name =
            some (before.interpreter.current, entry) ∧
          entry.value = item ∧ entry.watch = [] := by
  have read := readList_written run items noError
  refine ⟨Text.toInt?_text, ?_, ?_, ?_, ?_, ?_, ?_, ?_, ?_⟩
  · exact bind_of_ok read
  · intro text position isPosition
    exact ⟨fun _ => index_inside run rounds items noError isPosition,
      index_outside run rounds items noError isPosition⟩
  · intro number
    exact ⟨fun _ => index_ofInt_inside run rounds items noError,
      index_ofInt_outside run rounds items noError⟩
  · intro item
    have searches : callBuiltin run rounds .indexOf [ListText.write items, item] machine =
        .ok (.value ((items.idxOf? item).elim [] fun place => Text.ofInt place)) machine := by
      refine (bind_of_ok read).trans ?_
      cases items.idxOf? item <;> rfl
    rw [searches]
    constructor
    · intro place isThere isFirst
      obtain ⟨inside, isItem⟩ := List.getElem?_eq_some_iff.mp isThere
      have found : items.idxOf? item = some place :=
        List.idxOf?_eq_some_iff.mpr ⟨inside, isItem, fun earlier before isEarlier =>
          isFirst earlier before (List.getElem?_eq_some_iff.mpr ⟨_, isEarlier⟩)⟩
      rw [found, Option.elim_some]
    · intro absent
      rw [List.idxOf?_eq_none_iff.mpr absent, Option.elim_none]
  · intro startText start isStart
    have isRead : (startText.toIntD 0).toInt = start.toInt := by rw [Text.toIntD, isStart]; rfl
    constructor
    · rw [slice_from run rounds items noError, isRead]
    · intro stopText stop isStop
      rw [slice_between run rounds items noError, isRead]
      simp only [Command.rangeEnd, isStop]
      rfl
  · intro start
    constructor
    · rw [slice_from run rounds items noError, Command.max_toIntD_ofInt]
    · intro stop
      rw [slice_between run rounds items noError, Command.max_toIntD_ofInt,
        Command.rangeEnd_ofInt]
  · intro name body values last loops
    have collected := loops.eachItem_eq []
    constructor
    · refine (bind_of_ok read).trans ?_
      exact bind_of_ok collected
    · rintro rfl
      refine (bind_of_ok read).trans ?_
      exact bind_of_ok collected
  · intro name item before named inside unheard unwatched
    exact setVariable_own_of_unwatched run named item inside unheard unwatched

/-- A machine whose only command is `set`. -/
def setOnly : Machine Unit where
  interpreter := ({} : Interpreter Unit).define [0x73, 0x65, 0x74] (.builtin .setVariable)
  world := { host := () }

/-- The code `set x 9`. -/
def setNine : Text :=
  [0x73, 0x65, 0x74, 0x20, 0x78, 0x20, 0x39]

/-- Two elements with bytes that have a meaning in code. -/
def markedItems : List Text :=
  [[Byte.openBracket, 0x78], [Byte.dollar, Byte.space]]

/-- What a round of the body `set x 9` leaves, whatever it started with. -/
def nineSet (rounds : Nat) : Machine Unit :=
  { setOnly with interpreter :=
    { setOnly.interpreter with
      frames := #[{
        bindings := ⟨[([0x78], { name := [0x78], owner := rootFrame, value := [0x39] })]⟩ }]
      source := setNine
      statistics.successes := rounds } }

/-- Positions and bounds around the two elements, one of them far below every integer of 64 bits. -/
theorem list_commands_compute_on_elements_marked :
    callBuiltin (evaluate 2) 2 .count [ListText.write markedItems] setOnly =
        .ok (.value [0x32]) setOnly ∧
      callBuiltin (evaluate 2) 2 .index [ListText.write markedItems, [0x31]] setOnly =
        .ok (.value [Byte.dollar, Byte.space]) setOnly ∧
      callBuiltin (evaluate 2) 2 .index [ListText.write markedItems, [Byte.minus, 0x31]] setOnly =
        .ok (.value []) setOnly ∧
      callBuiltin (evaluate 2) 2 .index [ListText.write markedItems, Text.ofInt (10 ^ 30)] setOnly =
        .ok (.value []) setOnly ∧
      callBuiltin (evaluate 2) 2 .indexOf [ListText.write markedItems, [Byte.dollar, Byte.space]]
          setOnly = .ok (.value [0x31]) setOnly ∧
      callBuiltin (evaluate 2) 2 .slice
          [ListText.write markedItems, [Byte.minus, 0x35], [0x31]] setOnly =
        .ok (.value (ListText.write [[Byte.openBracket, 0x78]])) setOnly ∧
      callBuiltin (evaluate 2) 2 .slice
          [ListText.write markedItems, Text.ofInt (-(10 ^ 30)), Text.ofInt 1] setOnly =
        .ok (.value (ListText.write [[Byte.openBracket, 0x78]])) setOnly ∧
      callBuiltin (evaluate 2) 2 .forEach [[0x78], ListText.write markedItems, setNine] setOnly =
        .ok (.value (ListText.write [[0x39], [0x39]])) (nineSet 2) := by
  obtain ⟨-, counts, indexes, indexesWritten, searches, slices, slicesWritten, loops, -⟩ :=
    list_commands_compute_on_elements (evaluate 2) 2 markedItems
      (show setOnly.interpreter.error = none from rfl)
  have firstRun : evaluate 2 setNine false (storing .own [0x78] [Byte.openBracket, 0x78] setOnly) =
      .ok [0x39] (nineSet 1) := rfl
  have secondRun : evaluate 2 setNine false
      (storing .own [0x78] [Byte.dollar, Byte.space] (nineSet 1)) = .ok [0x39] (nineSet 2) := rfl
  have rounds : Command.Rounds (evaluate 2) [0x78] setNine markedItems setOnly [[0x39], [0x39]]
      (nineSet 2) :=
    .round rfl firstRun rfl rfl (.round rfl secondRun rfl rfl (.none _))
  refine ⟨counts, (indexes [0x31] 1 (by decide)).1 1 (by decide) (by decide),
    (indexes [Byte.minus, 0x31] (-1) (by decide)).2 (by decide),
    (indexesWritten (10 ^ 30)).2 (by decide),
    (searches [Byte.dollar, Byte.space]).1 1 rfl (by decide), ?_, ?_, (loops _ _ _ _ rounds).1⟩
  · exact (slices [Byte.minus, 0x35] (-5) (by decide)).2 [0x31] 1 (by decide)
  · exact (slicesWritten (-(10 ^ 30))).2 1

/-- The code `slice {a b c}` with a start. -/
def slicing (start : Int) : Text :=
  Text.ofString "slice \x7ba b c\x7d " ++ Text.ofInt start

/--
A start that does not have 64 bits counts as zero, so the whole list is what lies behind it, though
no position is as great as that.
-/
theorem slice_misses_long_start :
    unfailed? (evaluate 3 (slicing (10 ^ 20 - 1)) true) (Machine.start () {} {}) =
        some (Text.ofString "a b c") ∧
      ([[0x61], [0x62], [0x63]] : List Text).zipIdx.filter
        (fun entry => decide (max (10 ^ 20 - 1) 0 ≤ (entry.2 : Int))) = [] ∧
    unfailed? (evaluate 3 (slicing (10 ^ 400 - 1)) true) (Machine.start () {} {}) =
        some (Text.ofString "a b c") ∧
      ([[0x61], [0x62], [0x63]] : List Text).zipIdx.filter
        (fun entry => decide (max (10 ^ 400 - 1) 0 ≤ (entry.2 : Int))) = [] := by
  decide +kernel

end Eval

end LittleScript
