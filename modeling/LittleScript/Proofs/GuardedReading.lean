import LittleScript.Proofs.Dispatching
import LittleScript.Proofs.GuardedScanning

namespace LittleScript.Guarded

/-!
# Reading words within bounds

Scripts and lists are read here by position, and a look outside of the text crashes the host.  What
is read, and what is run on the way, is the same as with the reader of what is left of the text, so
no such look happens.
-/

open Eval (malformed hasError isStopping inspect markCommand cancellation raise guardDepth prepare
  reportError settleValue ensuring entered left)
open Source (Cursor)

variable {σ α β : Type}

/-- Use what was looked up; if that was outside, the host crashes. -/
def access (found : Option α) : Eval σ α :=
  match found with
  | some value => pure value
  | none => throw .crash

/-- What was found is used. -/
@[simp] theorem access_some
    (value : α) :
    access (σ := σ) (some value) = pure value :=
  rfl

/-- A text that was read, with the cursor at the position behind it. -/
def placed (code : Text) (read : α × Nat) : α × Cursor :=
  (read.1, cursorAt code read.2)

section View

variable {δ γ : Type} {action : Eval σ α} {view : α → δ} {shown : β → γ}

/-- What follows a viewed action is viewed, if it is so for every value. -/
theorem map_bind_eq
    {next : δ → Eval σ γ}
    {other : α → Eval σ β}
    (same : ∀ value, next (view value) = shown <$> other value) :
    (view <$> action) >>= next = shown <$> (action >>= other) := by
  rw [bind_map_left, map_bind]
  exact congrArg _ (funext same)

/-- What follows an action is viewed, if that is so for every value. -/
theorem bind_eq_map
    {next : α → Eval σ γ}
    {other : α → Eval σ β}
    (same : ∀ value, next value = shown <$> other value) :
    action >>= next = shown <$> (action >>= other) := by
  rw [map_bind]
  exact congrArg _ (funext same)

end View

/-! ## Parts of words -/

/-- Move past blanks, reporting a comment that never ends. -/
def skipBlanks (reader : Reader) (code : Text) (head : Nat) : Eval σ Nat := do
  let (stop, opened) ← access (blanksFrom reader.acrossLines code (code.length + 1) head)
  match opened with
  | some start => malformed reader start .openComment
  | none => pure ()
  return stop

/-- The value of a variable part: the dollar expansion with the name is run as code. -/
def dollarPart (run : Run σ) (name : Eval σ (Text × Nat)) : Eval σ (Text × Nat) := do
  let (word, after) ← name
  let expansion ← inspect Interpreter.dollar
  let value ← run (expansion ++ ListText.write [word]) false
  return (value, after)

/-- The literal text of a brace part; the position is behind the opening brace. -/
def bracePart (reader : Reader) (code : Text) (head : Nat) : Eval σ (Text × Nat) := do
  match ← access (closing Byte.openBrace Byte.closeBrace code 0 head) with
  | some stop => return (← access (slice code head (stop - 1)), stop)
  | none =>
      malformed reader (head - 1) .openBrace
      return (← access (slice code head code.length), code.length)

/-- The result of a command part; the position is behind the opening bracket. -/
def bracketPart (reader : Reader) (run : Run σ) (code : Text) (head : Nat) :
    Eval σ (Text × Nat) := do
  match ← access (closing Byte.openBracket Byte.closeBracket code 0 head) with
  | some stop =>
      let value ← run (← access (slice code head (stop - 1))) false
      return (value, stop)
  | none =>
      malformed reader (head - 1) .openBracket
      return ([], code.length)

/-- The text of a quoted part. -/
def quotedPart (reader : Reader) (run : Run σ) (name : Nat → Eval σ (Text × Nat))
    (quote : UInt8) (start : Nat) (code : Text) : Nat → Nat → Text → Eval σ (Text × Nat)
  | 0, head, done => return (done.reverse, head)
  | bound + 1, head, done => do
      let (literal, stop) ← access (quotedRun quote code head done)
      if code.length ≤ stop then
        malformed reader start .openQuote
        return (literal.reverse, stop)
      let byte ← access (element code stop)
      if byte == Byte.dollar || byte == Byte.openBracket then
        let (value, after) ←
          if byte == Byte.dollar then dollarPart run (name (stop + 1))
          else bracketPart reader run code (stop + 1)
        let grown := value.reverse ++ literal
        if ← hasError then return (grown.reverse, after)
        else quotedPart reader run name quote start code bound after grown
      else return (literal.reverse, stop + 1)

/-- Read one part of a word. -/
def part (reader : Reader) (run : Run σ) (code : Text) : Nat → Nat → Eval σ (Text × Nat)
  | 0, head => return ([], head)
  | bound + 1, head => do
      let head ← skipBlanks reader code head
      if code.length ≤ head then return ([], head)
      let byte ← access (element code head)
      if byte == Byte.dollar then dollarPart run (part reader run code bound (head + 1))
      else if byte == Byte.openBrace then bracePart reader code (head + 1)
      else if byte == Byte.openBracket then bracketPart reader run code (head + 1)
      else if byte == Byte.doubleQuote || byte == Byte.singleQuote then
        quotedPart reader run (part reader run code bound) byte head code (bound + 1) (head + 1) []
      else
        let stop ← access (skipWhile isBare code head)
        return (← access (slice code head stop), stop)

/-- Skipping blanks by position leads to the position behind them. -/
theorem skipBlanks_eq
    (reader : Reader)
    (code : Text)
    (head : Nat) :
    Eval.skipBlanks (σ := σ) reader (cursorAt code head) =
      cursorAt code <$> skipBlanks reader code head := by
  obtain ⟨stop, opened, found, skipped⟩ :=
    blanksFrom_eq reader.acrossLines code (code.length + 1) head (by omega)
  have blanks : Source.skipBlanks reader.acrossLines (cursorAt code head) =
      ⟨cursorAt code stop, opened⟩ := skipped
  rw [Eval.skipBlanks, skipBlanks, found, blanks]
  cases opened with
  | none => simp
  | some start => simp

/-- The code behind a dollar is the same wherever its name was read. -/
theorem dollarPart_eq
    (run : Run σ)
    (code : Text)
    (name : Eval σ (Text × Nat)) :
    Eval.dollarPart run (placed code <$> name) = placed code <$> dollarPart run name := by
  simp [Eval.dollarPart, dollarPart, placed]

/-- A part in braces is the same stretch of the text. -/
theorem bracePart_eq
    (reader : Reader)
    {code : Text}
    {head : Nat}
    (inside : head ≤ code.length) :
    Eval.bracePart (σ := σ) reader (cursorAt code head) =
      placed code <$> bracePart reader code head := by
  simp only [Eval.bracePart, bracePart, Source.bracesEnd?, cursorAt]
  rcases enclosed_eq Byte.openBrace Byte.closeBrace code head with
    ⟨missing, never⟩ | ⟨stop, enclosed, found, sliced, isStop, ends⟩
  · have rest := slice_of_inside inside (Nat.le_refl code.length)
    rw [List.take_of_length_le (by simp)] at rest
    simp [missing, never, rest, Nat.add_sub_of_le inside, placed, cursorAt]
  · simp [found, ends, sliced, ← isStop, placed, cursorAt]

/-- A part in brackets is the same stretch of the text. -/
theorem bracketPart_eq
    (reader : Reader)
    (run : Run σ)
    {code : Text}
    {head : Nat}
    (inside : head ≤ code.length) :
    Eval.bracketPart reader run (cursorAt code head) =
      placed code <$> bracketPart reader run code head := by
  simp only [Eval.bracketPart, bracketPart, Source.bracketsEnd?, cursorAt]
  rcases enclosed_eq Byte.openBracket Byte.closeBracket code head with
    ⟨missing, never⟩ | ⟨stop, enclosed, found, sliced, isStop, ends⟩
  · simp [missing, never, Nat.add_sub_of_le inside, placed, cursorAt]
  · simp [found, ends, sliced, ← isStop, placed, cursorAt]

/-- A quoted part is read alike by position. -/
theorem quotedPart_eq
    (reader : Reader)
    (run : Run σ)
    {code : Text}
    {name : Nat → Eval σ (Text × Nat)}
    {named : Cursor → Eval σ (Text × Cursor)}
    (names : ∀ head, named (cursorAt code head) = placed code <$> name head)
    (quote : UInt8)
    (start bound : Nat) :
    ∀ (head : Nat) (done : Text),
      Eval.quotedPart reader run named quote start bound (cursorAt code head) done =
        placed code <$> quotedPart reader run name quote start code bound head done := by
  induction bound with
  | zero =>
      intro head done
      simp [Eval.quotedPart, quotedPart, placed]
  | succ bound inductionHypothesis =>
      intro head done
      obtain ⟨literal, stop, found, ran⟩ := quotedRun_eq quote code head done
      have ran' : LittleScript.quotedRun quote (cursorAt code head).rest (cursorAt code head).offset
          done = (literal, cursorAt code stop) := ran
      rw [Eval.quotedPart, quotedPart, found, ran']
      simp only [access_some, pure_bind]
      cases facing code stop with
      | done past rest =>
          simp [past, cursorAt, rest, placed]
      | on byte inside here rest =>
          have next : (⟨code.drop (stop + 1), stop + 1⟩ : Cursor) = cursorAt code (stop + 1) := rfl
          simp only [cursorAt, rest]
          simp only [next, if_neg (Nat.not_le_of_lt inside), here, access_some, pure_bind, names,
            dollarPart_eq, bracketPart_eq reader run inside]
          have goesOn : ∀ read : Text × Nat,
              (do
                if ← hasError then
                  pure (((placed code read).1.reverse ++ literal).reverse, (placed code read).2)
                else
                  Eval.quotedPart reader run named quote start bound (placed code read).2
                    ((placed code read).1.reverse ++ literal)) =
              placed code <$> (do
                if ← hasError then pure ((read.1.reverse ++ literal).reverse, read.2)
                else
                  quotedPart reader run name quote start code bound read.2
                    (read.1.reverse ++ literal)) := by
            intro read
            refine bind_eq_map fun failed => ?_
            cases failed with
            | true => rfl
            | false => exact inductionHypothesis read.2 _
          split
          case isTrue =>
            split
            · exact map_bind_eq goesOn
            · exact map_bind_eq goesOn
          case isFalse =>
            rfl

/-- Every part is read alike by position. -/
theorem part_eq
    (reader : Reader)
    (run : Run σ)
    (code : Text)
    (bound : Nat) :
    ∀ head, Eval.part reader run bound (cursorAt code head) =
      placed code <$> part reader run code bound head := by
  induction bound with
  | zero =>
      intro head
      simp [Eval.part, part, placed]
  | succ bound inductionHypothesis =>
      intro head
      rw [Eval.part, part, skipBlanks_eq]
      refine map_bind_eq fun head => ?_
      cases facing code head with
      | done past rest =>
          simp [past, cursorAt, rest, placed]
      | on byte inside here rest =>
          have next : (⟨code.drop (head + 1), head + 1⟩ : Cursor) = cursorAt code (head + 1) := rfl
          simp only [cursorAt, rest]
          simp only [next, if_neg (Nat.not_le_of_lt inside), here, access_some, pure_bind,
            inductionHypothesis, dollarPart_eq, bracePart_eq reader inside,
            bracketPart_eq reader run inside, quotedPart_eq reader run inductionHypothesis,
            skipWhile_eq, slice_runEnd isBare (Nat.le_of_lt inside)]
          split
          · rfl
          split
          · rfl
          split
          · rfl
          split
          · rfl
          rw [← rest, ← drop_runEnd]
          rfl

/-! ## Words -/

/-- Whether a word ends at a position. -/
def endsWord (code : Text) (head : Nat) : Option Bool :=
  if code.length ≤ head then some true
  else do
    let byte ← element code head
    return Byte.isSpace byte || Byte.isSeparator byte

/-- Whether the words end at a position. -/
def endsWords (reader : Reader) (code : Text) (head : Nat) : Option Bool :=
  if code.length ≤ head then some true
  else do
    return !reader.acrossLines && Byte.isSeparator (← element code head)

/-- Read the parts of one word; a part that takes nothing must stand on a byte. -/
def word (reader : Reader) (run : Run σ) (code : Text) (depth : Nat) :
    Nat → Nat → Text → Eval σ (Option (Text × Nat))
  | 0, _, _ => return none
  | bound + 1, head, done => do
      let (value, after) ← part reader run code depth head
      if after == head then
        malformed reader head (.strayCloser (← access (element code head)))
        return none
      let grown := value.reverse ++ done
      if (← access (endsWord code after)) || (← hasError) then return some (grown.reverse, after)
      else word reader run code depth bound after grown

/-- Read words up to a separator, the end or an error. -/
def wordsFrom (reader : Reader) (run : Run σ) (code : Text) (depth : Nat) :
    Nat → Nat → List Text → Eval σ (Option (List Text × Nat))
  | 0, head, done => return some (done.reverse, head)
  | bound + 1, head, done => do
      if (← access (endsWords reader code head)) || (← hasError) then
        return some (done.reverse, head)
      match ← word reader run code depth depth head [] with
      | none => return none
      | some (value, after) =>
          let after ← skipBlanks reader code after
          wordsFrom reader run code depth bound after (value :: done)

/-- Read the words of one command, or of a whole text across lines. -/
def words (reader : Reader) (run : Run σ) (code : Text) (bound head : Nat) :
    Eval σ (Option (List Text × Nat)) := do
  wordsFrom reader run code bound bound (← skipBlanks reader code head) []

/-- Read a text as a list, replacing dollars and brackets in it. -/
def readList (run : Run σ) (text : Text) : Eval σ (List Text) := do
  match ← words ⟨false, true⟩ run text (text.length + 1) 0 with
  | some (items, _) => return items
  | none => return []

/-- Where a word ends is seen within the text. -/
theorem endsWord_eq
    (code : Text)
    (head : Nat) :
    endsWord code head =
      some ((cursorAt code head).isDone || (cursorAt code head).isOn Byte.isSpace ||
        (cursorAt code head).isOn Byte.isSeparator) := by
  rw [endsWord]
  cases facing code head with
  | done past rest =>
      simp [past, cursorAt, rest, Cursor.isDone]
  | on byte inside here rest =>
      simp [Nat.not_le_of_lt inside, here, cursorAt, rest, Cursor.isDone, Cursor.isOn]

/-- Where the words of a command end is seen within the text. -/
theorem endsWords_eq
    (reader : Reader)
    (code : Text)
    (head : Nat) :
    endsWords reader code head =
      some ((cursorAt code head).isDone ||
        (!reader.acrossLines && (cursorAt code head).isOn Byte.isSeparator)) := by
  rw [endsWords]
  cases facing code head with
  | done past rest =>
      simp [past, cursorAt, rest, Cursor.isDone]
  | on byte inside here rest =>
      simp [Nat.not_le_of_lt inside, here, cursorAt, rest, Cursor.isDone, Cursor.isOn]

/-- A word is read alike by position. -/
theorem word_eq
    (reader : Reader)
    (run : Run σ)
    (code : Text)
    (depth bound : Nat) :
    ∀ (head : Nat) (done : Text), head < code.length →
      Eval.word reader run depth bound (cursorAt code head) done =
        Option.map (placed code) <$> word reader run code depth bound head done := by
  induction bound with
  | zero =>
      intro head done _
      simp [Eval.word, word]
  | succ bound inductionHypothesis =>
      intro head done inside
      rw [Eval.word, word, part_eq]
      refine map_bind_eq fun read => ?_
      obtain ⟨value, after⟩ := read
      have sameTest : ((cursorAt code after).offset == (cursorAt code head).offset) =
          (after == head) := rfl
      cases stuck : after == head with
      | true =>
          have here : element code head = some ((cursorAt code head).rest.headD 0) := by
            rw [element_of_inside inside, cursorAt, List.drop_eq_getElem_cons inside]
            rfl
          simp only [placed, sameTest, stuck, if_true, here, access_some, pure_bind]
          exact bind_eq_map fun _ => rfl
      | false =>
          simp only [placed, sameTest, stuck, Bool.false_eq_true, if_false, endsWord_eq,
            access_some, pure_bind]
          refine bind_eq_map fun failed => ?_
          by_cases ends : ((cursorAt code after).isDone ||
              (cursorAt code after).isOn Byte.isSpace ||
              (cursorAt code after).isOn Byte.isSeparator || failed) = true
          · simp only [ends, if_true]
            rfl
          · simp only [ends, Bool.false_eq_true, if_false]
            simp only [cursorAt_isDone, Bool.or_eq_true, decide_eq_true_eq, not_or] at ends
            exact inductionHypothesis after _ (Nat.lt_of_not_le ends.1.1.1)

/-- Words are read alike by position, one after the other. -/
theorem wordsFrom_eq
    (reader : Reader)
    (run : Run σ)
    (code : Text)
    (depth bound : Nat) :
    ∀ (head : Nat) (done : List Text),
      Eval.wordsFrom reader run depth bound (cursorAt code head) done =
        Option.map (placed code) <$> wordsFrom reader run code depth bound head done := by
  induction bound with
  | zero =>
      intro head done
      simp [Eval.wordsFrom, wordsFrom, placed]
  | succ bound inductionHypothesis =>
      intro head done
      rw [Eval.wordsFrom, wordsFrom]
      simp only [endsWords_eq, access_some, pure_bind]
      refine bind_eq_map fun failed => ?_
      split
      case isTrue =>
        rfl
      case isFalse goesOn =>
        simp only [cursorAt_isDone, Bool.or_eq_true, decide_eq_true_eq, not_or] at goesOn
        rw [word_eq reader run code depth depth head [] (Nat.lt_of_not_le goesOn.1.1)]
        refine map_bind_eq fun read => ?_
        cases read with
        | none =>
            rfl
        | some read =>
            simp only [Option.map_some, placed, skipBlanks_eq]
            exact map_bind_eq fun after => inductionHypothesis after _

/-- The words of a command are read alike by position. -/
theorem words_eq
    (reader : Reader)
    (run : Run σ)
    (code : Text)
    (bound head : Nat) :
    Eval.words reader run bound (cursorAt code head) =
      Option.map (placed code) <$> words reader run code bound head := by
  rw [Eval.words, words, skipBlanks_eq]
  exact map_bind_eq fun start => wordsFrom_eq reader run code bound bound start []

/-- A list is read within bounds. -/
theorem readList_eq
    (run : Run σ)
    (text : Text) :
    Eval.readList run text = readList run text := by
  have start : Cursor.start text = cursorAt text 0 := rfl
  rw [Eval.readList, readList, start, words_eq, bind_map_left]
  refine congrArg _ (funext fun read => ?_)
  cases read with
  | none => rfl
  | some read => rfl

/-! ## Scripts -/

section Scripts

variable (call : List Text → Eval σ Text) (run : Run σ)

/-- Move past blanks, separators and blanks to the next command. -/
def nextCommand (reader : Reader) (code : Text) (head : Nat) : Eval σ Nat := do
  let head ← skipBlanks reader code head
  let stop ← access (skipWhile Byte.isSeparator code head)
  skipBlanks reader code stop

/-- Run the command at a position; without a next position the script ends there. -/
def commandAt (bound : Nat) (reader : Reader) (code : Text) (head : Nat) :
    Eval σ (Text × Option Nat) := do
  markCommand head
  match ← cancellation with
  | some cause =>
      raise (.cancelled cause)
      return ([], none)
  | none =>
      match ← words reader run code bound head with
      | none => return ([], none)
      | some (command, after) =>
          if ← hasError then return ([], none)
          let value ← if command.isEmpty then pure [] else call command
          if ← isStopping then return (value, none)
          return (value, some (← nextCommand reader code after))

/-- Run commands until the text ends, an error is pending or the frame is being left. -/
def commands (reader : Reader) (code : Text) (depth : Nat) : Nat → Nat → Text → Eval σ Text
  | 0, _, last => return last
  | bound + 1, head, last => do
      if decide (code.length ≤ head) || (← hasError) then return last
      match ← commandAt call run depth reader code head with
      | (value, none) => return value
      | (value, some next) => commands reader code depth bound next value

/-- Run a script as the innermost evaluation. -/
def scriptBody (code : Text) (ownResult outermost : Bool) : Eval σ Text := do
  guardDepth
  prepare ownResult outermost
  let reader : Reader := ⟨outermost, false⟩
  let first ← skipBlanks reader code 0
  let value ← commands call run reader code (code.length + 1) (code.length + 1) first []
  reportError
  settleValue ownResult value

/-- Run a script. -/
def script (code : Text) (ownResult : Bool) : Eval σ Text :=
  fun machine =>
    ensuring (scriptBody call run code ownResult machine.interpreter.active.isEmpty)
      (left machine) (entered code machine)

end Scripts

/-- The next command is found at the same position. -/
theorem nextCommand_eq
    (reader : Reader)
    (code : Text)
    (head : Nat) :
    Eval.nextCommand (σ := σ) reader (cursorAt code head) =
      cursorAt code <$> nextCommand reader code head := by
  rw [Eval.nextCommand, nextCommand, skipBlanks_eq]
  refine map_bind_eq fun stop => ?_
  have behind : cursorAt code (runEnd Byte.isSeparator code stop) =
      ⟨(code.drop stop).dropWhile Byte.isSeparator, runEnd Byte.isSeparator code stop⟩ := by
    rw [cursorAt, drop_runEnd]
  rw [skipWhile_eq, access_some, pure_bind, ← skipBlanks_eq, behind]
  rfl

/-- A command is read alike by position, whatever it is called with. -/
theorem commandAt_eq
    (call : List Text → Eval σ Text)
    (run : Run σ)
    (bound : Nat)
    (reader : Reader)
    (code : Text)
    (head : Nat) :
    Eval.commandAtVia call run bound reader (cursorAt code head) =
      (fun ran => (ran.1, ran.2.map (cursorAt code))) <$>
        commandAt call run bound reader code head := by
  rw [Eval.commandAtVia, commandAt]
  refine bind_eq_map fun _ => bind_eq_map fun cause => ?_
  cases cause with
  | some cause =>
      exact bind_eq_map fun _ => rfl
  | none =>
      simp only [words_eq]
      refine map_bind_eq fun read => ?_
      cases read with
      | none =>
          rfl
      | some read =>
          simp only [Option.map_some, placed, nextCommand_eq]
          refine bind_eq_map fun failed => ?_
          have goesOn : ∀ value : Text,
              (do
                if ← isStopping then return (value, none)
                return (value, some (← cursorAt code <$> nextCommand reader code read.2)) :
                  Eval σ (Text × Option Cursor)) =
              (fun ran => (ran.1, ran.2.map (cursorAt code))) <$> (do
                if ← isStopping then return (value, none)
                return (value, some (← nextCommand reader code read.2)) :
                  Eval σ (Text × Option Nat)) := by
            intro value
            refine bind_eq_map fun stopping => ?_
            split
            · rfl
            · exact map_bind_eq fun next => rfl
          split
          · rfl
          · split
            · exact bind_eq_map goesOn
            · exact bind_eq_map goesOn

/-- Commands are read alike by position, one after the other. -/
theorem commands_eq
    (call : List Text → Eval σ Text)
    (run : Run σ)
    (reader : Reader)
    (code : Text)
    (depth bound : Nat) :
    ∀ (head : Nat) (last : Text),
      Eval.commandsVia call run reader depth bound (cursorAt code head) last =
        commands call run reader code depth bound head last := by
  induction bound with
  | zero =>
      intro head last
      rfl
  | succ bound inductionHypothesis =>
      intro head last
      rw [Eval.commandsVia, commands]
      simp only [cursorAt_isDone, commandAt_eq, bind_map_left]
      refine congrArg _ (funext fun failed => ?_)
      split
      · rfl
      · refine congrArg _ (funext fun ran => ?_)
        obtain ⟨value, next⟩ := ran
        cases next with
        | none => rfl
        | some next => exact inductionHypothesis next value

/-- A script is read and run within bounds. -/
theorem script_eq
    (call : List Text → Eval σ Text)
    (run : Run σ)
    (code : Text)
    (ownResult : Bool) :
    Eval.scriptVia call run code ownResult = script call run code ownResult := by
  have start : Cursor.start code = cursorAt code 0 := rfl
  funext machine
  simp only [Eval.scriptVia, script, Eval.scriptBodyVia, scriptBody, start, skipBlanks_eq,
    bind_map_left, commands_eq]

end LittleScript.Guarded
