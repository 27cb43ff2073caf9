import LittleScript.Proofs.Characters
import LittleScript.Proofs.ScreenView

namespace LittleScript.Repl

/-!
# Walking through the commands entered before

The commands of a screen are the lines that were entered and evaluated, in order, and while the
field shows one of them its place is inside.  The field returns whatever it has taken up once, so
behind an entered line every walk up and down shows the very commands that were entered.
-/

open Rune (IsScalar encode)

namespace InputField

/-! ## What a field stores -/

/-- Characters that a field takes up as they are. -/
structure Storable (characters : List Nat) : Prop where
  short : characters.length ≤ limit
  scalars : ∀ code ∈ characters, IsScalar code
  admitted : ∀ code ∈ characters, admit? code = some code

/-- Whatever is left of storable characters is storable. -/
theorem Storable.sublist
    {characters kept : List Nat}
    (storable : Storable characters)
    (sublist : kept.Sublist characters) :
    Storable kept where
  short := sublist.length_le.trans storable.short
  scalars code member := storable.scalars code (sublist.subset member)
  admitted code member := storable.admitted code (sublist.subset member)

/-- A character that a field admits is taken up as it is when it comes again. -/
theorem admit?_admitted
    {code admitted : Nat}
    (admits : admit? code = some admitted) :
    admit? admitted = some admitted := by
  unfold admit? at admits
  split_ifs at admits with isBlank isReplacement isControl
  · cases admits
    rfl
  · cases admits
    simp [admit?, isBlank, isReplacement, isControl]

/-- Characters that a field admits have bytes of their own and are taken up again. -/
theorem scalar_of_mem_admitted
    {text : Text}
    {code : Nat}
    (member : code ∈ admitted text) :
    IsScalar code ∧ admit? code = some code := by
  obtain ⟨rune, isRead, admits⟩ := List.mem_filterMap.mp member
  refine ⟨?_, admit?_admitted admits⟩
  unfold admit? at admits
  split_ifs at admits
  · cases admits
    simp [IsScalar]
  · cases admits
    exact Rune.scalar_of_mem_decode isRead

/-- What a field takes up of a text is storable. -/
theorem storable_admitted
    (text : Text) :
    Storable ((admitted text).take limit) where
  short := List.length_take_le _ _
  scalars _ member := (scalar_of_mem_admitted (List.mem_of_mem_take member)).1
  admitted _ member := (scalar_of_mem_admitted (List.mem_of_mem_take member)).2

/-- Storable characters are taken up from their bytes as they are. -/
theorem admitted_encode
    {characters : List Nat}
    (storable : Storable characters) :
    admitted (characters.flatMap encode) = characters := by
  rw [admitted, Rune.decode_encode storable.scalars, List.filterMap_map]
  exact (List.filterMap_congr storable.admitted).trans (List.filterMap_some ..)

section Editing

variable (field : InputField)

/-- Scrolling shows other characters, and keeps all of them. -/
@[simp]
theorem scroll_characters :
    field.scroll.characters = field.characters := by
  unfold scroll
  dsimp only
  split_ifs <;> rfl

/-- Moving the cursor keeps the characters. -/
@[simp]
theorem moveTo_characters
    (place : Nat) :
    (field.moveTo place).characters = field.characters :=
  scroll_characters _

/-- Scrolling keeps the cursor. -/
theorem scroll_cursor :
    field.scroll.cursor = field.cursor := by
  unfold scroll
  dsimp only
  split_ifs <;> rfl

/-- The cursor moves to its place, or behind the last character. -/
@[simp]
theorem moveTo_cursor
    (place : Nat) :
    (field.moveTo place).cursor = min place field.characters.length :=
  scroll_cursor _

/-- Moving to the end keeps the characters. -/
@[simp]
theorem moveToEnd_characters :
    field.moveToEnd.characters = field.characters :=
  moveTo_characters field _

/-- A text that is put into a field is cleaned and cut to the limit. -/
@[simp]
theorem setText_characters
    (text : Text) :
    (field.setText text).characters = (admitted text).take limit :=
  scroll_characters _

/-- Moving over words keeps the characters. -/
@[simp]
theorem stepForward_characters
    (count : Nat) :
    (stepForward count field).characters = field.characters := by
  induction count generalizing field with
  | zero => rfl
  | succ count keeps => exact (keeps _).trans (moveTo_characters field _)

/-- Moving back over words keeps the characters. -/
@[simp]
theorem stepBackward_characters
    (count : Nat) :
    (stepBackward count field).characters = field.characters := by
  induction count generalizing field with
  | zero => rfl
  | succ count keeps => exact (keeps _).trans (moveTo_characters field _)

/-- Steps forward do not lead back, unless the cursor stood behind the text. -/
theorem le_stepForward_cursor
    (inside : field.cursor ≤ field.characters.length)
    (count : Nat) :
    field.cursor ≤ (stepForward count field).cursor := by
  induction count generalizing field with
  | zero => exact Nat.le_refl _
  | succ count inductionHypothesis =>
      have moved := inductionHypothesis (field.moveTo (field.cursor + 1))
        (by rw [moveTo_cursor, moveTo_characters]; exact Nat.min_le_right _ _)
      rw [moveTo_cursor] at moved
      exact le_trans (by omega) moved

/-- Steps backward do not lead forward. -/
theorem stepBackward_cursor_le
    (count : Nat) :
    (stepBackward count field).cursor ≤ field.cursor := by
  induction count generalizing field with
  | zero => exact Nat.le_refl _
  | succ count inductionHypothesis =>
      have moved := inductionHypothesis (field.moveTo (field.cursor - 1))
      rw [moveTo_cursor] at moved
      exact le_trans moved (by omega)

/-- What is left when characters are removed. -/
theorem remove_sublist
    {start stop : Nat}
    (ordered : start ≤ stop) :
    (field.remove start stop).characters.Sublist field.characters := by
  have dropped : (field.characters.drop stop).Sublist (field.characters.drop start) :=
    (List.drop_suffix_drop_left _ ordered).sublist
  have parts := (List.Sublist.refl (field.characters.take start)).append dropped
  rwa [List.take_append_drop] at parts

/-- Removing the word behind the cursor leaves some of the characters. -/
theorem removeWordForward_sublist :
    field.removeWordForward.characters.Sublist field.characters := by
  unfold removeWordForward
  split_ifs with behind
  · exact List.Sublist.refl _
  · have ordered := le_stepForward_cursor field (Nat.le_of_not_le behind)
      (1 + wordLength (field.characters.drop (field.cursor + 1)))
    have kept := remove_sublist
      (stepForward (1 + wordLength (field.characters.drop (field.cursor + 1))) field) ordered
    rwa [stepForward_characters, ← moveTo_characters _ field.cursor] at kept

/-- Removing the word before the cursor leaves some of the characters. -/
theorem removeWordBackward_sublist :
    field.removeWordBackward.characters.Sublist field.characters := by
  unfold removeWordBackward
  dsimp only
  generalize isStart :
    field.cursor - wordLength (field.characters.take field.cursor).reverse = start
  have before : start ≤ field.cursor := isStart ▸ Nat.sub_le _ _
  have lower := stepBackward_cursor_le field (field.cursor - (start - 1))
  have same := stepBackward_characters field (field.cursor - (start - 1))
  generalize stepBackward (field.cursor - (start - 1)) field = lowered at lower same
  split_ifs with late
  · have ordered : (lowered.moveTo start).cursor ≤ field.cursor := by
      rw [moveTo_cursor]
      omega
    have kept := remove_sublist (lowered.moveTo start) ordered
    rwa [moveTo_characters, same] at kept
  · have kept := remove_sublist lowered lower
    rwa [same] at kept

/-- No edit adds characters. -/
theorem edit_sublist
    (edit : Edit) :
    (field.edit edit).characters.Sublist field.characters := by
  cases edit with
  | removeForward =>
      exact (scroll_characters _).symm ▸ remove_sublist field (Nat.le_succ _)
  | removeBackward =>
      exact (moveTo_characters _ _).symm ▸ remove_sublist field (Nat.sub_le _ _)
  | removeBefore =>
      exact (moveTo_characters _ _).symm ▸ remove_sublist field (Nat.zero_le _)
  | removeWordForward =>
      exact (scroll_characters _).symm ▸ removeWordForward_sublist field
  | removeWordBackward =>
      exact (scroll_characters _).symm ▸ removeWordBackward_sublist field
  | forward | backward | wordForward | wordBackward | toStart | toEnd | suggest =>
      simp [InputField.edit]

/-- What is typed is cleaned before it is put between the characters. -/
theorem type_storable
    (text : Text)
    (storable : Storable field.characters) :
    Storable (field.type text).characters := by
  have characters : (field.type text).characters =
      field.characters.take field.cursor ++
        (admitted text).take (limit - field.characters.length) ++
        field.characters.drop field.cursor :=
    scroll_characters _
  have member : ∀ code ∈ (field.type text).characters,
      code ∈ field.characters ∨ code ∈ admitted text := by
    intro code inside
    rw [characters, List.mem_append, List.mem_append] at inside
    rcases inside with (before | added) | behind
    · exact .inl (List.mem_of_mem_take before)
    · exact .inr (List.mem_of_mem_take added)
    · exact .inl (List.mem_of_mem_drop behind)
  have short := storable.short
  refine ⟨?_, fun code inside => ?_, fun code inside => ?_⟩
  · rw [characters]
    simp only [List.length_append, List.length_take, List.length_drop]
    omega
  · exact (member code inside).elim (storable.scalars code) fun added =>
      (scalar_of_mem_admitted added).1
  · exact (member code inside).elim (storable.admitted code) fun added =>
      (scalar_of_mem_admitted added).2

end Editing

/-! ## What a field returns -/

/-- A text that a field can hold. -/
def Holdable (text : Text) : Prop :=
  ∃ characters, Storable characters ∧ text = characters.flatMap encode

/-- A field returns the text that it is given if it can hold it. -/
theorem text_setText
    (field : InputField)
    {text : Text}
    (holdable : Holdable text) :
    (field.setText text).text = text := by
  obtain ⟨characters, storable, rfl⟩ := holdable
  rw [InputField.text, setText_characters, admitted_encode storable,
    List.take_of_length_le storable.short]

/-- A field can hold what is left of its text without the blanks around it. -/
theorem holdable_strip
    {field : InputField}
    (storable : Storable field.characters) :
    Holdable (Text.strip field.text) := by
  refine ⟨_, storable.sublist ?_, Text.strip_encode storable.scalars⟩
  exact (List.rdropWhile_prefix _ _).sublist.trans (List.dropWhile_suffix _).sublist

end InputField

/-! ## What is entered -/

/-- The key that a message counts as. -/
def Message.key? : Message → Option Key
  | .key pressed => some pressed
  | .typed text => Key.names.lookup text
  | .resized _ _ => none

namespace Screen

/-- The line that a message enters: that of the field, trimmed, unless it is blank. -/
def line? (screen : Screen) (message : Message) : Option Text :=
  let line := Text.strip screen.field.text
  if message.key? = some .enter ∧ line ≠ [] then some line else none

/-- The lines that a conversation enters, in order. -/
def linesEntered (screen : Screen) : List Message → List Text
  | [] => []
  | message :: rest => (screen.line? message).toList ++ linesEntered (screen.update message).1 rest

/-- A message that counts as a key does what the key does. -/
theorem update_of_key
    (screen : Screen)
    {message : Message}
    {key : Key}
    (counts : message.key? = some key) :
    screen.update message = screen.press key := by
  cases message with
  | key pressed =>
      cases counts
      rfl
  | typed text =>
      rw [Message.key?] at counts
      simp only [update, counts]
  | resized width height => cases counts

/-! ## What the walks rely on -/

/-- What holds of a screen in every conversation. -/
structure KeepsHistory (screen : Screen) : Prop where
  field : InputField.Storable screen.field.characters
  commands : ∀ command ∈ screen.commands, InputField.Holdable command
  place : ∀ place, screen.place = some place → place < screen.commands.length

/-- A change of the field that keeps its text storable, and nothing else that matters here. -/
theorem KeepsHistory.of_field
    {screen after : Screen}
    (keeps : screen.KeepsHistory)
    (storable : InputField.Storable after.field.characters)
    (commands : after.commands = screen.commands)
    (place : after.place = screen.place ∨ after.place = none) :
    after.KeepsHistory where
  field := storable
  commands := commands ▸ keeps.commands
  place shown isShown := by
    rcases place with same | none
    · rw [commands]
      exact keeps.place shown (same ▸ isShown)
    · rw [none] at isShown
      cases isShown

/-- What a screen puts into its field is storable. -/
theorem storable_setInput
    (screen : Screen)
    (text : Text) :
    InputField.Storable (screen.setInput text).field.characters := by
  simpa [setInput] using InputField.storable_admitted text

/-- An empty field is storable. -/
theorem storable_clearInput
    (screen : Screen) :
    InputField.Storable screen.clearInput.field.characters := by
  simpa [clearInput] using InputField.storable_admitted []

/-- The field shows a text that it can hold. -/
theorem text_setInput
    (screen : Screen)
    {text : Text}
    (holdable : InputField.Holdable text) :
    (screen.setInput text).field.text = text := by
  have same : (screen.setInput text).field.characters =
      (screen.field.setText text).characters := by
    simp [setInput]
  rw [InputField.text, same]
  exact InputField.text_setText screen.field holdable

/-- A command of the history that is shown is one that can be entered again. -/
theorem keepsHistory_showCommand
    {screen : Screen}
    (keeps : screen.KeepsHistory)
    {place : Nat}
    (inside : place < screen.commands.length) :
    (screen.showCommand place).KeepsHistory where
  field := storable_setInput screen _
  commands := keeps.commands
  place shown isShown := by
    cases isShown
    exact inside

/-- Walking up goes to a place within the history. -/
theorem keepsHistory_walkUp
    {screen : Screen}
    (keeps : screen.KeepsHistory) :
    screen.walkUp.KeepsHistory := by
  unfold walkUp
  split_ifs with noCommands
  · exact keeps
  · have notEmpty : screen.commands ≠ [] := by simpa using noCommands
    have some := List.length_pos_of_ne_nil notEmpty
    cases shows : screen.place with
    | none => exact keepsHistory_showCommand keeps (by omega)
    | some place =>
        have inside := keeps.place place shows
        exact keepsHistory_showCommand keeps (by omega)

/-- Walking down goes to a place within the history, or leaves it. -/
theorem keepsHistory_walkDown
    {screen : Screen}
    (keeps : screen.KeepsHistory) :
    screen.walkDown.KeepsHistory := by
  unfold walkDown
  split
  · exact keeps
  · split_ifs with inside
    · exact keepsHistory_showCommand keeps inside
    · exact keeps.of_field (storable_clearInput screen) rfl (.inr rfl)

/-- Completing a word only changes the field. -/
theorem keepsHistory_complete
    {screen : Screen}
    (keeps : screen.KeepsHistory) :
    screen.complete.KeepsHistory := by
  unfold complete
  dsimp only
  split
  · exact keeps
  · split_ifs
    · exact keeps
    · split
      · exact keeps
      · exact keeps.of_field (storable_setInput screen _) rfl (.inl rfl)
      · exact keeps.of_field keeps.field rfl (.inl rfl)

/-- A line for the session is not remembered by what it does. -/
theorem commands_command
    (screen : Screen)
    (input : Text) :
    (screen.command input).commands = screen.commands := by
  unfold command
  dsimp only
  split <;> rfl

/-- An entered line joins the commands unless it is blank or for the session. -/
theorem commands_enter
    (screen : Screen)
    {message : Message}
    (enters : message.key? = some .enter) :
    screen.enter.1.commands =
      screen.commands ++ (screen.line? message).toList.filter fun line => !isCommand line := by
  unfold enter line?
  simp only [enters, true_and]
  cases line : Text.strip screen.field.text with
  | nil => simp
  | cons byte rest =>
      cases forSession : isCommand (byte :: rest) with
      | true => simp [forSession, clearInput, commands_command]
      | false => simp [forSession, clearInput, evaluate, add]

/-- A line that is entered leaves an empty field that shows none of the commands. -/
theorem place_enter
    {screen : Screen}
    {message : Message}
    {line : Text}
    (entered : screen.line? message = some line) :
    (screen.update message).1.place = none := by
  rw [line?] at entered
  split_ifs at entered with enters
  obtain ⟨isEnter, notBlank⟩ := enters
  rw [update_of_key screen isEnter]
  simp only [press, enter, List.isEmpty_iff, notBlank, if_false]
  split_ifs <;> rfl

/-- Entering a line adds it to the history, and ends a walk. -/
theorem keepsHistory_enter
    {screen : Screen}
    (keeps : screen.KeepsHistory) :
    screen.enter.1.KeepsHistory := by
  have holdable := InputField.holdable_strip keeps.field
  unfold enter
  dsimp only
  split_ifs with blank forSession
  · exact keeps
  · exact keeps.of_field (storable_clearInput _) (commands_command screen _) (.inr rfl)
  · refine ⟨storable_clearInput _, fun command member => ?_, fun place shown => ?_⟩
    · rcases List.mem_append.mp member with earlier | isNew
      · exact keeps.commands command earlier
      · exact List.mem_singleton.mp isNew ▸ holdable
    · cases shown

/-- A key keeps the history, and only the entering one adds to the commands. -/
theorem keepsHistory_press
    {screen : Screen}
    (keeps : screen.KeepsHistory)
    (key : Key) :
    (screen.press key).1.KeepsHistory := by
  cases key with
  | enter => exact keepsHistory_enter keeps
  | up => exact keepsHistory_walkUp keeps
  | down => exact keepsHistory_walkDown keeps
  | tab => exact keepsHistory_complete keeps
  | interrupt | endOfInput | clear | globals | help =>
      exact keeps.of_field keeps.field rfl (.inl rfl)

/-- Walking up does not change the history. -/
theorem commands_walkUp
    (screen : Screen) :
    screen.walkUp.commands = screen.commands := by
  unfold walkUp
  split_ifs
  · rfl
  · split <;> rfl

/-- Walking down does not change the history. -/
theorem commands_walkDown
    (screen : Screen) :
    screen.walkDown.commands = screen.commands := by
  unfold walkDown
  split
  · rfl
  · split_ifs <;> rfl

/-- Completing does not change the history. -/
theorem commands_complete
    (screen : Screen) :
    screen.complete.commands = screen.commands := by
  unfold complete
  dsimp only
  split
  · rfl
  · split_ifs
    · rfl
    · split <;> rfl

/-- A message adds to the commands what it enters, unless that is for the session. -/
theorem commands_update
    (screen : Screen)
    (message : Message) :
    (screen.update message).1.commands =
      screen.commands ++ (screen.line? message).toList.filter fun line => !isCommand line := by
  cases counts : message.key? with
  | none =>
      have nothing : screen.line? message = none := by simp [line?, counts]
      rw [nothing]
      cases message with
      | key pressed => cases counts
      | resized width height => simp [update, resize]
      | typed text =>
          rw [Message.key?] at counts
          simp [update, counts]
  | some key =>
      rw [update_of_key screen counts]
      cases key with
      | enter => exact commands_enter screen counts
      | up => simp [press, line?, counts, commands_walkUp]
      | down => simp [press, line?, counts, commands_walkDown]
      | tab => simp [press, line?, counts, commands_complete]
      | interrupt | endOfInput | clear | globals | help => simp [press, line?, counts]

/-- No message breaks what the walks rely on. -/
theorem keepsHistory_update
    {screen : Screen}
    (keeps : screen.KeepsHistory)
    (message : Message) :
    (screen.update message).1.KeepsHistory := by
  cases counts : message.key? with
  | some key =>
      rw [update_of_key screen counts]
      exact keepsHistory_press keeps key
  | none =>
      cases message with
      | key pressed => cases counts
      | resized width height => exact keeps.of_field keeps.field rfl (.inl rfl)
      | typed text =>
          rw [Message.key?] at counts
          simp only [update, counts]
          refine keeps.of_field ?_ rfl (.inl rfl)
          dsimp only
          split
          · exact keeps.field.sublist (InputField.edit_sublist screen.field _)
          · exact InputField.type_storable screen.field text keeps.field

/-- It holds when a conversation starts. -/
theorem keepsHistory_start
    (files : FileSystem) :
    (start files).KeepsHistory where
  field := ⟨Nat.zero_le _, by simp [start], by simp [start]⟩
  commands := by simp [start]
  place := by simp [start]

/-- So it holds after all messages. -/
theorem keepsHistory_after
    {screen : Screen}
    (keeps : screen.KeepsHistory)
    (messages : List Message) :
    (screen.after messages).KeepsHistory := by
  induction messages generalizing screen with
  | nil => exact keeps
  | cons message rest inductionHypothesis =>
      exact inductionHypothesis (keepsHistory_update keeps message)

/-- The commands are the lines entered, but for those to the session. -/
theorem commands_after
    (screen : Screen)
    (messages : List Message) :
    (screen.after messages).commands =
      screen.commands ++ (screen.linesEntered messages).filter fun line => !isCommand line := by
  induction messages generalizing screen with
  | nil => simp [after, linesEntered]
  | cons message rest inductionHypothesis =>
      have after : screen.after (message :: rest) = (screen.update message).1.after rest := rfl
      rw [after, inductionHypothesis, commands_update, linesEntered, List.filter_append,
        List.append_assoc]

/-! ## Walking up and down -/

/-- A screen is on a walk, and its field shows the command at a place. -/
structure Shows (screen : Screen) (place : Nat) : Prop where
  walking : screen.place = some place
  command : screen.commands[place]? = some screen.field.text

/-- The command that is shown is the one at its place. -/
theorem shows_showCommand
    {screen : Screen}
    (keeps : screen.KeepsHistory)
    {place : Nat}
    (inside : place < screen.commands.length) :
    (screen.showCommand place).Shows place where
  walking := rfl
  command := by
    have found : screen.commands[place]? = some screen.commands[place] :=
      List.getElem?_eq_getElem inside
    have named : screen.commands.getD place [] = screen.commands[place] := by
      rw [List.getD_eq_getElem?_getD, found, Option.getD_some]
    have shown : (screen.showCommand place).field.text = screen.commands[place] := by
      rw [← named]
      refine text_setInput screen ?_
      rw [named]
      exact keeps.commands _ (List.getElem_mem inside)
    rw [shown]
    exact found

/-- The first step up shows the last command. -/
theorem shows_walkUp_of_none
    {screen : Screen}
    (keeps : screen.KeepsHistory)
    (fresh : screen.place = none)
    (some : 0 < screen.commands.length) :
    screen.walkUp.Shows (screen.commands.length - 1) := by
  have notEmpty : screen.commands.isEmpty = false :=
    List.isEmpty_eq_false_iff.mpr (List.ne_nil_of_length_pos some)
  rw [walkUp, notEmpty, fresh]
  exact shows_showCommand keeps (Nat.sub_lt some Nat.one_pos)

/-- A further step up shows the command before. -/
theorem Shows.walkUp
    {screen : Screen}
    {place : Nat}
    (shows : screen.Shows (place + 1))
    (keeps : screen.KeepsHistory) :
    screen.walkUp.Shows place := by
  have inside := keeps.place _ shows.walking
  have notEmpty : screen.commands.isEmpty = false :=
    List.isEmpty_eq_false_iff.mpr (List.ne_nil_of_length_pos (by omega))
  rw [Screen.walkUp, notEmpty, shows.walking]
  exact shows_showCommand keeps (by omega)

/-- A step down shows the command behind. -/
theorem Shows.walkDown
    {screen : Screen}
    {place : Nat}
    (shows : screen.Shows place)
    (keeps : screen.KeepsHistory)
    (inside : place + 1 < screen.commands.length) :
    screen.walkDown.Shows (place + 1) := by
  rw [Screen.walkDown, shows.walking]
  simp only [inside, if_true]
  exact shows_showCommand keeps inside

/-- Messages are taken one after the other. -/
theorem after_append
    (screen : Screen)
    (earlier later : List Message) :
    screen.after (earlier ++ later) = (screen.after earlier).after later :=
  List.foldl_append

/-- Steps up show one command after the other, from the last one on. -/
theorem shows_after_ups
    {screen : Screen}
    (keeps : screen.KeepsHistory)
    (fresh : screen.place = none)
    (ups : List Message) :
    (∀ message ∈ ups, message.key? = some .up) →
    ups.length ≤ screen.commands.length →
    ups ≠ [] →
      (screen.after ups).commands = screen.commands ∧
        (screen.after ups).Shows (screen.commands.length - ups.length) := by
  induction ups using List.reverseRecOn with
  | nil => exact fun _ _ walked => absurd rfl walked
  | append_singleton ups up inductionHypothesis =>
      intro areUps enough _
      rw [List.forall_mem_append, List.forall_mem_singleton] at areUps
      rw [List.length_append, List.length_singleton] at enough ⊢
      have last : screen.after (ups ++ [up]) = (screen.after ups).walkUp := by
        rw [after_append]
        exact congrArg Prod.fst (update_of_key (screen.after ups) areUps.2)
      have keepsBefore := keepsHistory_after keeps ups
      rw [last, commands_walkUp]
      by_cases first : ups = []
      · subst first
        exact ⟨rfl, shows_walkUp_of_none keeps fresh enough⟩
      · obtain ⟨same, shows⟩ := inductionHypothesis areUps.1 (by omega) first
        refine ⟨same, Shows.walkUp ?_ keepsBefore⟩
        rwa [show screen.commands.length - (ups.length + 1) + 1 =
          screen.commands.length - ups.length by omega]

/-- Steps down show one command after the other. -/
theorem Shows.after_downs
    {screen : Screen}
    {place : Nat}
    (shows : screen.Shows place)
    (keeps : screen.KeepsHistory)
    (downs : List Message) :
    (∀ message ∈ downs, message.key? = some .down) →
    place + downs.length < screen.commands.length →
      (screen.after downs).commands = screen.commands ∧
        (screen.after downs).Shows (place + downs.length) := by
  induction downs using List.reverseRecOn with
  | nil => exact fun _ _ => ⟨rfl, shows⟩
  | append_singleton downs down inductionHypothesis =>
      intro areDowns inside
      rw [List.forall_mem_append, List.forall_mem_singleton] at areDowns
      rw [List.length_append, List.length_singleton] at inside ⊢
      have last : screen.after (downs ++ [down]) = (screen.after downs).walkDown := by
        rw [after_append]
        exact congrArg Prod.fst (update_of_key (screen.after downs) areDowns.2)
      obtain ⟨same, shows⟩ := inductionHypothesis areDowns.1 (by omega)
      rw [last, commands_walkDown]
      exact ⟨same, shows.walkDown (keepsHistory_after keeps downs) (by rw [same]; omega)⟩

/-- From where no command shows, steps up and then fewer steps down show a command of the latest. -/
theorem walk_shows
    {screen : Screen}
    (keeps : screen.KeepsHistory)
    (fresh : screen.place = none)
    {ups downs : List Message}
    (areUps : ∀ message ∈ ups, message.key? = some .up)
    (areDowns : ∀ message ∈ downs, message.key? = some .down)
    (fewer : downs.length < ups.length)
    (enough : ups.length ≤ screen.commands.length) :
    screen.commands[screen.commands.length - (ups.length - downs.length)]? =
      some (screen.after (ups ++ downs)).field.text := by
  have walked : ups ≠ [] := List.ne_nil_of_length_pos (Nat.zero_lt_of_lt fewer)
  obtain ⟨sameUp, up⟩ := shows_after_ups keeps fresh ups areUps enough walked
  have inside :
      screen.commands.length - ups.length + downs.length < (screen.after ups).commands.length := by
    rw [sameUp]
    omega
  obtain ⟨sameDown, down⟩ := up.after_downs (keepsHistory_after keeps ups) downs areDowns inside
  have back : screen.commands.length - (ups.length - downs.length) =
      screen.commands.length - ups.length + downs.length := by
    omega
  rw [after_append, back, ← down.command, sameDown, sameUp]

/-! ## The history of a conversation -/

/--
In every conversation the place on a walk is one of a command, and the commands are the lines that
were entered, trimmed, but for blank ones and those to the session.  When a line has just been
entered, steps up and then fewer steps down show the command that was entered as many commands ago
as the steps lead back.
-/
theorem walks_show_commands
    (files : FileSystem)
    (messages : List Message) :
    (∀ place, (conversed files messages).place = some place →
      place < (conversed files messages).commands.length) ∧
      (conversed files messages).commands =
        ((start files).linesEntered messages).filter (fun line => !isCommand line) ∧
      ∀ enter ups downs,
        ((conversed files messages).line? enter).isSome →
        (∀ message ∈ ups, message.key? = some .up) →
        (∀ message ∈ downs, message.key? = some .down) →
        downs.length < ups.length →
        let entered := conversed files (messages ++ [enter])
        ups.length ≤ entered.commands.length →
          entered.commands[entered.commands.length - (ups.length - downs.length)]? =
            some (entered.after (ups ++ downs)).field.text := by
  have keeps := keepsHistory_after (keepsHistory_start files)
  refine ⟨(keeps messages).place, commands_after (start files) messages, ?_⟩
  intro enter ups downs isLine areUps areDowns fewer entered enough
  obtain ⟨line, isLine⟩ := Option.isSome_iff_exists.mp isLine
  have last : entered = ((conversed files messages).update enter).1 :=
    after_append (start files) messages [enter]
  have fresh : entered.place = none := by
    rw [last]
    exact place_enter isLine
  exact walk_shows (keeps _) fresh areUps areDowns fewer enough

/-- Two commands are entered, with blanks around one of them, and one line for the session. -/
def twoCommands : List Message :=
  [.typed (Text.ofString " first\tone "), .key .enter, .typed (Text.ofString ":help"),
    .typed (Text.ofString "enter"), .typed (Text.ofString "second")]

/-- Two steps up and one step down show the second command. -/
theorem walks_show_commands_there_and_back :
    ((conversed {} twoCommands).line? (.key .enter)).isSome = true ∧
      2 ≤ (conversed {} (twoCommands ++ [.key .enter])).commands.length ∧
      ((conversed {} (twoCommands ++ [.key .enter])).after
        [.key .up, .typed (Text.ofString "up"), .key .down]).field.text =
          Text.ofString "second" := by
  have isLine : ((conversed {} twoCommands).line? (.key .enter)).isSome = true := by
    decide +kernel
  have enough : 2 ≤ (conversed {} (twoCommands ++ [.key .enter])).commands.length := by
    decide +kernel
  have second : (conversed {} (twoCommands ++ [.key .enter])).commands[1]? =
      some (Text.ofString "second") := by
    decide +kernel
  have two : (conversed {} (twoCommands ++ [.key .enter])).commands.length = 2 := by
    decide +kernel
  have shows := (walks_show_commands {} twoCommands).2.2 (.key .enter)
    [.key .up, .typed (Text.ofString "up")] [.key .down] isLine (by decide +kernel)
    (by decide +kernel) (by decide) enough
  refine ⟨isLine, enough, ?_⟩
  simp only [two] at shows
  exact (Option.some.inj (second.symm.trans shows)).symm

end Screen

end LittleScript.Repl
