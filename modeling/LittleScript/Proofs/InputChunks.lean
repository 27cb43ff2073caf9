import LittleScript.Repl.Conversation
import Mathlib.Data.List.Forall2
import Mathlib.Data.List.Infix

namespace LittleScript.Repl

/-!
# What becomes of entered lines

The prompt collects lines until they are a chunk.  Without interrupts the chunks are a division of
the lines: none is lost, repeated or moved.  Every chunk is as short as it can be, and only the end
of the input gives out a chunk that is still unfinished.  The chunks that are not blank are
evaluated one after the other, each once.
-/

/-! ## Joined lines -/

/-- The code that lines make when they are entered one after the other. -/
def joined (lines : List Text) : Text :=
  Text.joinWith [Byte.newline] lines

theorem joined_nil :
    joined [] = [] :=
  rfl

theorem joined_singleton
    (line : Text) :
    joined [line] = line := by
  simp [joined, Text.joinWith]

theorem joined_cons
    (line : Text)
    {rest : List Text}
    (isMore : rest ≠ []) :
    joined (line :: rest) = line ++ Byte.newline :: joined rest := by
  obtain ⟨next, rest, rfl⟩ := List.exists_cons_of_ne_nil isMore
  simp [joined, Text.joinWith]

theorem joined_append
    {lines more : List Text}
    (isSome : lines ≠ [])
    (isMore : more ≠ []) :
    joined (lines ++ more) = joined lines ++ Byte.newline :: joined more := by
  induction lines with
  | nil =>
      exact absurd rfl isSome
  | cons line rest inductionHypothesis =>
      by_cases isLast : rest = []
      · rw [isLast, List.singleton_append, joined_cons line isMore, joined_singleton]
      · have behind : rest ++ more ≠ [] := List.append_ne_nil_of_left_ne_nil isLast more
        rw [List.cons_append, joined_cons line behind, inductionHypothesis isLast,
          joined_cons line isLast, List.append_assoc, List.cons_append]

/-- Groups of lines can be joined first. -/
theorem joined_flatten
    {groups : List (List Text)}
    (someLine : ∀ group ∈ groups, group ≠ []) :
    joined groups.flatten = joined (groups.map joined) := by
  induction groups with
  | nil =>
      rfl
  | cons group rest inductionHypothesis =>
      have isSome := someLine group List.mem_cons_self
      have someLineBehind : ∀ other ∈ rest, other ≠ [] :=
        fun other member => someLine other (List.mem_cons_of_mem _ member)
      cases rest with
      | nil =>
          rw [List.flatten_singleton, List.map_singleton, joined_singleton]
      | cons next rest =>
          have isMore : (next :: rest).flatten ≠ [] := by
            rw [List.flatten_cons]
            exact List.append_ne_nil_of_left_ne_nil (someLineBehind next List.mem_cons_self) _
          have isMoreJoined : (next :: rest).map joined ≠ [] := List.cons_ne_nil _ _
          rw [List.flatten_cons, joined_append isSome isMore, inductionHypothesis someLineBehind,
            List.map_cons (l := next :: rest), joined_cons _ isMoreJoined]

/-! ## One chunk -/

/-- The prompts for so many lines of one chunk. -/
def promptsFor : Nat → List Text
  | 0 => []
  | count + 1 => mainPrompt :: List.replicate count continuationPrompt

/-- Lines that are unfinished wherever one stops, also at their end. -/
def StaysUnfinished (lines : List Text) : Prop :=
  ∀ beginning, beginning ≠ [] → beginning <+: lines →
    Source.isIncomplete (joined beginning) = true

/--
`Collected lines chunk`: the chunk is what the prompt makes of the lines.  Where the input has ended
within the chunk it has been prompted for once more.
-/
structure Collected (lines : List Text) (chunk : Chunk) : Prop where
  someLine : lines ≠ []
  code : chunk.code = joined lines
  unfinished : ∀ beginning, beginning ≠ [] → beginning <+: lines → beginning ≠ lines →
    Source.isIncomplete (joined beginning) = true
  prompts : chunk.prompts =
    promptsFor (if Source.isIncomplete chunk.code then lines.length + 1 else lines.length)

/-- Unfinished code is not empty. -/
theorem ne_nil_of_isIncomplete
    {code : Text}
    (incomplete : Source.isIncomplete code = true) :
    code ≠ [] := by
  rintro rfl
  cases incomplete

namespace StaysUnfinished

variable {before : List Text}

theorem nil :
    StaysUnfinished [] :=
  fun _ isSome suffix => absurd (List.prefix_nil.mp suffix) isSome

theorem joined_eq_nil_iff
    (unfinished : StaysUnfinished before) :
    joined before = [] ↔ before = [] := by
  constructor
  · intro isNil
    cases before with
    | nil => rfl
    | cons first rest =>
        have incomplete := unfinished _ (List.cons_ne_nil first rest) List.prefix_rfl
        exact absurd isNil (ne_nil_of_isIncomplete incomplete)
  · rintro rfl
    rfl

/-- One more line is entered behind the lines that have been collected. -/
theorem collect_eq
    (unfinished : StaysUnfinished before)
    (line : Text) :
    collect (joined before) line = joined (before ++ [line]) := by
  by_cases isFirst : before = []
  · rw [isFirst, List.nil_append, joined_singleton]
    rfl
  · have isMore : joined before ≠ [] := fun isNil => isFirst (unfinished.joined_eq_nil_iff.mp isNil)
    rw [collect, if_neg (by simpa using isMore), joined_append isFirst (by simp), joined_singleton]

/-- The prompts for the lines collected so far and for the next entry. -/
theorem prompts_eq
    (unfinished : StaysUnfinished before) :
    (promptFor (joined before) :: (promptsFor before.length).reverse).reverse =
      promptsFor (before.length + 1) := by
  rw [List.reverse_cons, List.reverse_reverse, promptFor]
  cases before with
  | nil =>
      rfl
  | cons first rest =>
      have isMore : joined (first :: rest) ≠ [] :=
        fun isNil => absurd (unfinished.joined_eq_nil_iff.mp isNil) (by simp)
      rw [if_neg (by simpa using isMore)]
      simp [promptsFor, List.replicate_succ']

/-- A proper beginning of the lines with one more is a beginning of the lines. -/
theorem of_prefix
    (unfinished : StaysUnfinished before)
    {line : Text}
    {beginning : List Text}
    (isSome : beginning ≠ [])
    (begins : beginning <+: before ++ [line])
    (proper : beginning ≠ before ++ [line]) :
    Source.isIncomplete (joined beginning) = true := by
  rcases List.prefix_concat_iff.mp begins with whole | shorter
  · exact absurd whole proper
  · exact unfinished beginning isSome shorter

theorem snoc
    (unfinished : StaysUnfinished before)
    {line : Text}
    (incomplete : Source.isIncomplete (joined (before ++ [line])) = true) :
    StaysUnfinished (before ++ [line]) := by
  intro beginning isSome begins
  by_cases whole : beginning = before ++ [line]
  · rw [whole]
    exact incomplete
  · exact unfinished.of_prefix isSome begins whole

/-- The lines with a last one that finishes them are collected in a chunk. -/
theorem collected
    (unfinished : StaysUnfinished before)
    {line : Text}
    (finished : ¬Source.isIncomplete (joined (before ++ [line])) = true) :
    Collected (before ++ [line])
      ⟨(promptFor (joined before) :: (promptsFor before.length).reverse).reverse,
        joined (before ++ [line])⟩ where
  someLine := by simp
  code := rfl
  unfinished _ := unfinished.of_prefix
  prompts := by simp only [unfinished.prompts_eq, finished, List.length_append,
    List.length_singleton]; rfl

/-- The lines collected when the input ends are given out as a chunk. -/
theorem collected_at_end
    (unfinished : StaysUnfinished before)
    (isSome : before ≠ []) :
    Collected before
      ⟨(promptFor (joined before) :: (promptsFor before.length).reverse).reverse,
        joined before⟩ where
  someLine := isSome
  code := rfl
  unfinished beginning isSome begins _ := unfinished beginning isSome begins
  prompts := by
    rw [unfinished.prompts_eq, if_pos (unfinished before isSome List.prefix_rfl)]

end StaysUnfinished

/-! ## All chunks -/

/-- The lines collected so far and those that follow are divided into chunks. -/
theorem chunksFrom_collected
    {before : List Text}
    (unfinished : StaysUnfinished before)
    (lines : List Text) :
    ∃ groups : List (List Text),
      groups.flatten = before ++ lines ∧
        List.Forall₂ Collected groups
          (chunksFrom (promptsFor before.length).reverse (joined before) (lines.map .line)) := by
  induction lines generalizing before with
  | nil =>
      rw [List.map_nil, chunksFrom]
      by_cases isFirst : before = []
      · subst isFirst
        exact ⟨[], rfl, .nil⟩
      · have isMore : joined before ≠ [] :=
          fun isNil => isFirst (unfinished.joined_eq_nil_iff.mp isNil)
        rw [if_neg (by simpa using isMore)]
        exact ⟨[before], by simp, .cons (unfinished.collected_at_end isFirst) .nil⟩
  | cons line rest inductionHypothesis =>
      rw [List.map_cons, chunksFrom, feed, unfinished.collect_eq]
      by_cases incomplete : Source.isIncomplete (joined (before ++ [line])) = true
      · have shown : promptFor (joined before) :: (promptsFor before.length).reverse =
            (promptsFor (before ++ [line]).length).reverse := by
          rw [List.length_append, List.length_singleton, ← unfinished.prompts_eq,
            List.reverse_reverse]
        obtain ⟨groups, divided, collected⟩ :=
          inductionHypothesis (unfinished.snoc incomplete)
        refine ⟨groups, by simpa using divided, ?_⟩
        simpa only [if_pos incomplete, shown] using collected
      · obtain ⟨groups, divided, collected⟩ := inductionHypothesis StaysUnfinished.nil
        refine ⟨(before ++ [line]) :: groups, by simpa using divided, ?_⟩
        simpa only [if_neg incomplete] using .cons (unfinished.collected incomplete) collected

/-- Entered lines are divided into chunks. -/
theorem chunks_collected
    (lines : List Text) :
    ∃ groups : List (List Text),
      groups.flatten = lines ∧ List.Forall₂ Collected groups (chunks (lines.map .line)) :=
  chunksFrom_collected StaysUnfinished.nil lines

/-- The codes of chunks are their joined lines. -/
theorem map_code_of_collected
    {groups : List (List Text)}
    {chunks : List Chunk}
    (collected : List.Forall₂ Collected groups chunks) :
    chunks.map Chunk.code = groups.map joined ∧ ∀ group ∈ groups, group ≠ [] := by
  induction collected with
  | nil =>
      exact ⟨rfl, by simp⟩
  | cons isCollected _ inductionHypothesis =>
      refine ⟨by rw [List.map_cons, List.map_cons, isCollected.code, inductionHypothesis.1], ?_⟩
      simpa using ⟨isCollected.someLine, inductionHypothesis.2⟩

/-- The codes of the chunks are the entered lines, in order. -/
theorem joined_chunks
    (lines : List Text) :
    joined ((chunks (lines.map .line)).map Chunk.code) = joined lines := by
  obtain ⟨groups, divided, collected⟩ := chunks_collected lines
  obtain ⟨codes, someLine⟩ := map_code_of_collected collected
  rw [codes, ← joined_flatten someLine, divided]

/-- Whatever finishes a chunk finishes its code. -/
theorem feed_finished
    {pending code : Text}
    {entry : Entry}
    (finished : feed pending entry = .finished code) :
    Source.isIncomplete code = false := by
  cases entry with
  | interrupt =>
      cases finished
      rfl
  | line text =>
      rw [feed] at finished
      by_cases incomplete : Source.isIncomplete (collect pending text) = true
      · simp [incomplete] at finished
      · simp only [incomplete] at finished
        cases finished
        simpa using incomplete

/-- Only the last chunk can be unfinished. -/
theorem finished_of_mem_dropLast
    {prompts : List Text}
    {pending : Text}
    {entries : List Entry} :
    ∀ chunk ∈ (chunksFrom prompts pending entries).dropLast,
      Source.isIncomplete chunk.code = false := by
  fun_induction chunksFrom prompts pending entries with
  | case1 | case2 =>
      simp
  | case3 prompts pending entry rest shown code unfinished inductionHypothesis =>
      exact inductionHypothesis
  | case4 prompts pending entry rest shown code finished inductionHypothesis =>
      intro chunk member
      by_cases isLast : chunksFrom [] [] rest = []
      · simp [isLast] at member
      · rw [List.dropLast_cons_of_ne_nil isLast] at member
        rcases List.mem_cons.mp member with rfl | behind
        · exact feed_finished finished
        · exact inductionHypothesis chunk behind

/-! ## Answers -/

section Answers

variable {σ : Type}

/-- What the prompt says of code once evaluated: the error, or the value unless it is empty. -/
def reply : Outcome Eval.Evaluated → Text
  | .finished ⟨_, some failure⟩ => failure.describe ++ [Byte.newline]
  | .finished ⟨value, none⟩ => if value.isEmpty then [] else value ++ [Byte.newline]
  | .stopped _ => []

/-- A machine whose output has been printed. -/
def printed (machine : Machine σ) : Machine σ :=
  { machine with world := { machine.world with written := [] } }

/--
`Answers machine codes outputs last`: from the one machine on each code is evaluated once, in order,
where the code before it left off, which leads to the last machine.  What is printed for a code is
what its evaluation wrote, and what the prompt says of it.
-/
inductive Answers : Machine σ → List Text → List Text → Machine σ → Prop
  | done (machine : Machine σ) :
      Answers machine [] [] machine
  | next
      {machine after last : Machine σ}
      {code : Text}
      {codes outputs : List Text}
      {outcome : Outcome Eval.Evaluated}
      (evaluates : machine.evaluate code = (outcome, after))
      (rest : Answers (printed after) codes outputs last) :
      Answers machine (code :: codes) ((after.world.output ++ reply outcome) :: outputs) last

/-- Something is printed for each code, be it nothing. -/
theorem Answers.length_eq
    {machine last : Machine σ}
    {codes outputs : List Text}
    (answers : Answers machine codes outputs last) :
    outputs.length = codes.length := by
  induction answers with
  | done =>
      rfl
  | next _ _ inductionHypothesis =>
      rw [List.length_cons, List.length_cons, inductionHypothesis]

/-- A line is written behind what has been written. -/
theorem output_writeLine
    (machine : Machine σ)
    (line : Text) :
    (writeLine machine line).world.output = machine.world.output ++ (line ++ [Byte.newline]) := by
  simp [writeLine, World.write, World.output]

/-- What is printed for code is what its evaluation wrote and what the prompt says of it. -/
theorem evaluateAndShow_eq
    {machine after : Machine σ}
    {code : Text}
    {outcome : Outcome Eval.Evaluated}
    (evaluates : machine.evaluate code = (outcome, after)) :
    (evaluateAndShow machine code).world.output = after.world.output ++ reply outcome ∧
      printed (evaluateAndShow machine code) = printed after := by
  unfold evaluateAndShow
  rw [evaluates]
  cases outcome with
  | stopped stop =>
      exact ⟨(List.append_nil _).symm, rfl⟩
  | finished evaluated =>
      obtain ⟨value, failure⟩ := evaluated
      cases failure with
      | some failure =>
          exact ⟨output_writeLine after _, rfl⟩
      | none =>
          by_cases isEmpty : value.isEmpty = true
          · simp [reply, isEmpty]
          · simp only [reply, isEmpty]
            exact ⟨output_writeLine after value, rfl⟩

/-- The chunks that are not blank. -/
def evaluated (chunks : List Chunk) : List Chunk :=
  chunks.filter fun chunk => !chunk.isBlank

/-- The round at the end of the input. -/
def lastRound : Round :=
  ⟨[mainPrompt], none, [Byte.newline]⟩

/-- What is remembered of a round, with what was printed for it. -/
def Round.answered (round : Round) : Option (Text × Text) :=
  round.remembered.map fun remembered => (remembered, round.output)

/-- Every chunk has a round, and those that are not blank are evaluated once each, in order. -/
theorem converse_answers
    (machine : Machine σ)
    (chunks : List Chunk) :
    ∃ rounds outputs last,
      converse machine chunks = (rounds ++ [lastRound], last) ∧
        Answers machine ((evaluated chunks).map Chunk.code) outputs last ∧
        rounds.map Round.prompts = chunks.map Chunk.prompts ∧
        rounds.filterMap Round.answered =
          ((evaluated chunks).map Chunk.remembered).zip outputs := by
  induction chunks generalizing machine with
  | nil =>
      exact ⟨[], [], machine, rfl, .done machine, rfl, rfl⟩
  | cons chunk rest inductionHypothesis =>
      cases isBlank : chunk.isBlank with
      | true =>
          obtain ⟨rounds, outputs, last, conversed, answers, prompts, answered⟩ :=
            inductionHypothesis machine
          have passes : evaluated (chunk :: rest) = evaluated rest := by simp [evaluated, isBlank]
          refine ⟨⟨chunk.prompts, none, []⟩ :: rounds, outputs, last, ?_, passes ▸ answers,
            by simp [prompts], ?_⟩
          · simp [converse, converseOnce, isBlank, conversed]
          · rw [passes, ← answered]
            rfl
      | false =>
          let after := machine.evaluate chunk.code
          obtain ⟨output, written⟩ :=
            evaluateAndShow_eq (show machine.evaluate chunk.code = (after.1, after.2) from rfl)
          obtain ⟨rounds, outputs, last, conversed, answers, prompts, answered⟩ :=
            inductionHypothesis (printed after.2)
          have isNext : evaluated (chunk :: rest) = chunk :: evaluated rest := by
            simp [evaluated, isBlank]
          refine ⟨⟨chunk.prompts, some chunk.remembered,
              (evaluateAndShow machine chunk.code).world.output⟩ :: rounds,
            (after.2.world.output ++ reply after.1) :: outputs, last, ?_, ?_, by simp [prompts], ?_⟩
          · rw [← written, printed] at conversed
            simp [converse, converseOnce, isBlank, conversed]
          · rw [isNext]
            exact .next rfl answers
          · simp [Round.answered, isNext, ← answered, output]

/--
The prompt neither loses, repeats nor reorders entered lines: they are divided into the chunks, and
the chunks that are not blank are evaluated once each, in order, before the last round.
-/
theorem chunks_of_lines
    (machine : Machine σ)
    (lines : List Text) :
    let entered := chunks (lines.map .line)
    joined (entered.map Chunk.code) = joined lines ∧
      (∃ groups : List (List Text),
        groups.flatten = lines ∧ List.Forall₂ Collected groups entered) ∧
      (∀ chunk ∈ entered.dropLast, Source.isIncomplete chunk.code = false) ∧
      ∃ rounds outputs last,
        converse machine entered = (rounds ++ [lastRound], last) ∧
          Answers machine ((evaluated entered).map Chunk.code) outputs last ∧
          rounds.map Round.prompts = entered.map Chunk.prompts ∧
          rounds.filterMap Round.answered =
            ((evaluated entered).map Chunk.remembered).zip outputs :=
  ⟨joined_chunks lines, chunks_collected lines, finished_of_mem_dropLast,
    converse_answers machine _⟩

/-- A command on three lines, its call, an empty line, another call and an unknown command. -/
def enteredLines : List Text :=
  [Text.ofString "func add \x7ba b\x7d \x7b", Text.ofString "  expr $a + $b", Text.ofString "\x7d",
    Text.ofString "add 2 3", [], Text.ofString "print [add 1 1]", Text.ofString "oops"]

/-- The codes to be evaluated that these lines make. -/
def enteredCodes : List Text :=
  [Text.ofString "func add \x7ba b\x7d \x7b\n  expr $a + $b\n\x7d", Text.ofString "add 2 3",
    Text.ofString "print [add 1 1]", Text.ofString "oops"]

/-- What is printed for each. -/
def enteredOutputs : List Text :=
  [Text.ofString "add\n", Text.ofString "5\n", Text.ofString "2\n",
    Text.ofString
      "error at 1:1: unknown function oops\n  --> line 1, column 1\n 1 | oops\n   | ^\n"]

/-- Four codes are evaluated, and the lines of the first are prompted for as its continuation. -/
theorem chunks_of_lines_entered :
    ∃ (rounds : List Round) (last : Machine Unit),
      converse (Machine.start () {} {}) (chunks (enteredLines.map .line)) =
          (rounds ++ [lastRound], last) ∧
        Answers (Machine.start () {} {}) enteredCodes enteredOutputs last ∧
        rounds.map Round.prompts =
          [[mainPrompt, continuationPrompt, continuationPrompt], [mainPrompt], [mainPrompt],
            [mainPrompt], [mainPrompt]] := by
  obtain ⟨-, -, -, rounds, outputs, last, conversed, answers, prompts, answered⟩ :=
    chunks_of_lines (Machine.start () {} {}) enteredLines
  have isCodes :
      (evaluated (chunks (enteredLines.map .line))).map Chunk.code = enteredCodes := by
    decide +kernel
  have isPrompts : (chunks (enteredLines.map .line)).map Chunk.prompts =
      [[mainPrompt, continuationPrompt, continuationPrompt], [mainPrompt], [mainPrompt],
        [mainPrompt], [mainPrompt]] := by
    decide +kernel
  have isOutputs :
      ((converse (Machine.start () {} {}) (chunks (enteredLines.map .line))).1.filterMap
        Round.answered).map Prod.snd = enteredOutputs := by
    decide +kernel
  have sameLength : outputs.length ≤
      ((evaluated (chunks (enteredLines.map .line))).map Chunk.remembered).length := by
    rw [answers.length_eq, List.length_map, List.length_map]
  have passesLast : [lastRound].filterMap Round.answered = [] := rfl
  rw [conversed, List.filterMap_append, passesLast, List.append_nil, answered,
    List.map_snd_zip sameLength] at isOutputs
  rw [isCodes, isOutputs] at answers
  exact ⟨rounds, last, conversed, answers, prompts.trans isPrompts⟩

end Answers

end LittleScript.Repl
