import LittleScript.Repl.View
import Mathlib.Data.List.Infix

namespace LittleScript.Repl

/-!
# What a conversation leaves to show

A screen learns the size of its window from resize messages only: nothing that is typed, entered or
evaluated changes it, and the input field keeps the width that goes with it.  The open panels
change with keys and with the global variables that scripts create, so the rows that are left to
the transcript can be fewer than none; that is when a screen has no view.
-/

namespace InputField

variable (field : InputField)

/-- Scrolling does not change the width of a field. -/
@[simp]
theorem scroll_width :
    field.scroll.width = field.width := by
  unfold scroll
  dsimp only
  split_ifs <;> rfl

/-- Moving the cursor does not. -/
@[simp]
theorem moveTo_width
    (place : Nat) :
    (field.moveTo place).width = field.width :=
  scroll_width _

/-- Nor does moving it to the end. -/
@[simp]
theorem moveToEnd_width :
    field.moveToEnd.width = field.width :=
  moveTo_width field _

/-- Nor does a new text. -/
@[simp]
theorem setText_width
    (text : Text) :
    (field.setText text).width = field.width :=
  scroll_width _

/-- Nor does typing. -/
@[simp]
theorem type_width
    (text : Text) :
    (field.type text).width = field.width :=
  scroll_width _

/-- Nor does removing characters. -/
@[simp]
theorem remove_width
    (start stop : Nat) :
    (field.remove start stop).width = field.width :=
  rfl

/-- Nor does moving over words. -/
@[simp]
theorem stepForward_width
    (count : Nat) :
    (stepForward count field).width = field.width := by
  induction count generalizing field with
  | zero => rfl
  | succ count keeps => exact (keeps _).trans (moveTo_width field _)

/-- Nor does moving back over words. -/
@[simp]
theorem stepBackward_width
    (count : Nat) :
    (stepBackward count field).width = field.width := by
  induction count generalizing field with
  | zero => rfl
  | succ count keeps => exact (keeps _).trans (moveTo_width field _)

/-- Nor does removing the word behind the cursor. -/
@[simp]
theorem removeWordForward_width :
    field.removeWordForward.width = field.width := by
  unfold removeWordForward
  split_ifs
  · rfl
  · simp

/-- Nor does removing the word before it. -/
@[simp]
theorem removeWordBackward_width :
    field.removeWordBackward.width = field.width := by
  unfold removeWordBackward
  dsimp only
  split_ifs <;> simp

/-- No edit changes the width of a field. -/
@[simp]
theorem edit_width
    (edit : Edit) :
    (field.edit edit).width = field.width := by
  cases edit <;> simp [InputField.edit]

end InputField

/-- What a screen knows of its window. -/
structure Window where
  width : Int
  height : Int
  fieldWidth : Int
  initialized : Bool
  deriving DecidableEq

/-- The window of a reported size. -/
def Window.ofSize (size : Int × Int) : Window :=
  ⟨size.1, size.2, size.1 - Screen.fieldMargin, true⟩

/-- The size that a message reports. -/
def Message.size? : Message → Option (Int × Int)
  | .resized width height => some (width, height)
  | .key _ | .typed _ => none

/-- The size that messages report last. -/
def lastSize? (messages : List Message) : Option (Int × Int) :=
  (messages.filterMap Message.size?).getLast?

namespace Screen

/-- The window as a screen knows it. -/
def window (screen : Screen) : Window :=
  ⟨screen.width, screen.height, screen.field.width, screen.initialized⟩

/-- The screen after messages. -/
def after (screen : Screen) (messages : List Message) : Screen :=
  messages.foldl (fun screen message => (screen.update message).1) screen

/-- An entry of the transcript does not change the window. -/
@[simp]
theorem window_add
    (screen : Screen)
    (entry : TranscriptEntry) :
    (screen.add entry).window = screen.window :=
  rfl

/-- A new input does not change the window. -/
@[simp]
theorem window_setInput
    (screen : Screen)
    (text : Text) :
    (screen.setInput text).window = screen.window := by
  simp [window, setInput]

/-- An empty input does not either. -/
@[simp]
theorem window_clearInput
    (screen : Screen) :
    screen.clearInput.window = screen.window := by
  simp [window, clearInput]

/-- Evaluating adds to the transcript only. -/
@[simp]
theorem window_evaluate
    (screen : Screen)
    (input : Text) :
    (screen.evaluate input).window = screen.window :=
  rfl

/-- A line for the session may open and close panels, but not resize the window. -/
@[simp]
theorem window_command
    (screen : Screen)
    (input : Text) :
    (screen.command input).window = screen.window := by
  unfold command
  dsimp only
  split <;> rfl

/-- Entering a line does not resize the window. -/
@[simp]
theorem window_enter
    (screen : Screen) :
    screen.enter.1.window = screen.window := by
  unfold enter
  dsimp only
  split_ifs with blank isCommand
  · rfl
  · rw [window_clearInput, window_command]
  · rw [window_clearInput]
    rfl

/-- Showing a command of the history does not. -/
@[simp]
theorem window_showCommand
    (screen : Screen)
    (place : Nat) :
    (screen.showCommand place).window = screen.window :=
  window_setInput screen _

/-- Walking up does not. -/
@[simp]
theorem window_walkUp
    (screen : Screen) :
    screen.walkUp.window = screen.window := by
  unfold walkUp
  split_ifs
  · rfl
  · split <;> exact window_showCommand screen _

/-- Walking down does not. -/
@[simp]
theorem window_walkDown
    (screen : Screen) :
    screen.walkDown.window = screen.window := by
  unfold walkDown
  split
  · rfl
  · split_ifs
    · exact window_showCommand screen _
    · exact window_clearInput screen

/-- Completing a word does not. -/
@[simp]
theorem window_complete
    (screen : Screen) :
    screen.complete.window = screen.window := by
  unfold complete
  dsimp only
  split
  · rfl
  · split_ifs
    · rfl
    · split
      · rfl
      · exact window_setInput screen _
      · exact window_add screen _

/-- No key changes what a screen knows of its window. -/
@[simp]
theorem window_press
    (screen : Screen)
    (key : Key) :
    (screen.press key).1.window = screen.window := by
  cases key with
  | enter => exact window_enter screen
  | up => exact window_walkUp screen
  | down => exact window_walkDown screen
  | tab => exact window_complete screen
  | interrupt | endOfInput | clear | globals | help => rfl

/-- Only a resize message changes what a screen knows of its window. -/
theorem window_update
    (screen : Screen)
    (message : Message) :
    (screen.update message).1.window =
      (message.size?.map Window.ofSize).getD screen.window := by
  cases message with
  | resized width height => rfl
  | key key => exact window_press screen key
  | typed text =>
      simp only [update, Message.size?, Option.map_none, Option.getD_none]
      split
      · exact window_press screen _
      · dsimp only
        split <;> simp [window]

/-- After a conversation a screen knows the size that was reported last. -/
theorem window_after
    (screen : Screen)
    (messages : List Message) :
    (screen.after messages).window =
      ((lastSize? messages).map Window.ofSize).getD screen.window := by
  induction messages generalizing screen with
  | nil => rfl
  | cons message rest knows =>
      have after : screen.after (message :: rest) = (screen.update message).1.after rest := rfl
      rw [after, knows, window_update]
      cases reported : message.size? with
      | none => simp [lastSize?, reported]
      | some size =>
          cases later : (rest.filterMap Message.size?).getLast? <;>
            simp [lastSize?, reported, later, List.getLast?_cons]

/-- A screen has no view just when it is to show more panels than fit, or an empty narrow field. -/
theorem view_eq_none_iff
    (screen : Screen) :
    screen.view? = none ↔
      screen.initialized = true ∧ screen.quitting = false ∧
        (screen.field.hasRoom = false ∨ screen.transcriptRows < 0) := by
  unfold view? latest?
  cases screen.initialized with
  | false => simp
  | true =>
      cases screen.quitting with
      | true => simp
      | false => cases screen.field.hasRoom <;> simp

/-- What a screen in use shows is its header, the latest entries that fit, and its footer. -/
theorem view_eq_some_of_running
    {screen : Screen}
    {view : Text}
    (shows : screen.view? = some view)
    (initialized : screen.initialized = true)
    (running : screen.quitting = false) :
    ∃ shown : List TranscriptEntry,
      shown <:+ screen.transcript ∧
        shown.length = min screen.transcript.length screen.transcriptRows.toNat ∧
        view = screen.header ++ shown.flatMap renderEntry ++ screen.footer := by
  unfold view? latest? at shows
  simp only [initialized, running, Bool.not_true, Bool.false_eq_true, if_false] at shows
  split_ifs at shows with narrow negative
  · cases shows
  rw [Option.map_some, Option.some.injEq] at shows
  refine ⟨_, List.drop_suffix _ _, ?_, shows.symm⟩
  rw [List.length_drop]
  omega

/-- The screen after a conversation from its start. -/
def conversed (files : FileSystem) (messages : List Message) : Screen :=
  (start files).after messages

/--
After every conversation a screen has a view unless it is in use in a window that is too low for
its panels or too narrow for an empty field.  Where it has one, the view of a screen in use shows
the latest entries of the transcript, as many as there are rows left to them.
-/
theorem conversation_view
    (files : FileSystem)
    (messages : List Message) :
    ((conversed files messages).view? = none ↔
      ∃ width height,
        lastSize? messages = some (width, height) ∧
          (conversed files messages).quitting = false ∧
          ((conversed files messages).field.characters = [] ∧ width < fieldMargin ∨
            height < 8 + (conversed files messages).panelRows)) ∧
      ∀ width height view,
        lastSize? messages = some (width, height) →
        (conversed files messages).quitting = false →
        (conversed files messages).view? = some view →
          ∃ shown : List TranscriptEntry,
            shown <:+ (conversed files messages).transcript ∧
              shown.length =
                min (conversed files messages).transcript.length
                  (max (height - 8 - (conversed files messages).panelRows) 0).toNat ∧
              view =
                (conversed files messages).header ++ shown.flatMap renderEntry ++
                  (conversed files messages).footer := by
  have knows := window_after (start files) messages
  rw [conversed]
  generalize (start files).after messages = screen at knows ⊢
  constructor
  · rw [view_eq_none_iff]
    cases reported : lastSize? messages with
    | none =>
        have uninitialized : screen.initialized = false := by
          rw [reported] at knows
          exact congrArg Window.initialized knows
        simp [uninitialized]
    | some size =>
        obtain ⟨width, height⟩ := size
        rw [reported] at knows
        have initialized : screen.initialized = true := congrArg Window.initialized knows
        have heightKnown : screen.height = height := congrArg Window.height knows
        have fieldKnown : screen.field.width = width - fieldMargin :=
          congrArg Window.fieldWidth knows
        have narrow :
            screen.field.hasRoom = false ↔
              screen.field.characters = [] ∧ width < fieldMargin := by
          simp [InputField.hasRoom, fieldKnown]
        have low : screen.transcriptRows < 0 ↔ height < 8 + screen.panelRows := by
          unfold transcriptRows
          omega
        simp [initialized, narrow, low]
  · intro width height view reported running shows
    rw [reported] at knows
    have initialized : screen.initialized = true := congrArg Window.initialized knows
    have heightKnown : screen.height = height := congrArg Window.height knows
    obtain ⟨shown, latest, count, layout⟩ :=
      view_eq_some_of_running shows initialized running
    refine ⟨shown, latest, ?_, layout⟩
    rw [count, transcriptRows, heightKnown]
    omega

/-- A conversation in a window with one row for two entries. -/
def smallWindow : List Message :=
  [.resized 80 9, .typed (Text.ofString ":a"), .key .enter, .typed (Text.ofString ":b"),
    .key .enter]

/-- The view of that conversation shows its second entry only. -/
theorem conversation_view_small_window :
    lastSize? smallWindow = some (80, 9) ∧
      (conversed {} smallWindow).transcript.length = 2 ∧
      ∃ shown : List TranscriptEntry,
        shown.map TranscriptEntry.input = [Text.ofString ":b"] ∧
          (conversed {} smallWindow).view? =
            some
              ((conversed {} smallWindow).header ++ shown.flatMap renderEntry ++
                (conversed {} smallWindow).footer) := by
  have shows : (conversed {} smallWindow).view?.isSome = true := by decide +kernel
  obtain ⟨view, shows⟩ := Option.isSome_iff_exists.mp shows
  obtain ⟨shown, latest, count, layout⟩ :=
    (conversation_view {} smallWindow).2 80 9 view (by decide +kernel) (by decide +kernel) shows
  have one : shown.length = 1 := count.trans (by decide +kernel)
  have last : shown = (conversed {} smallWindow).transcript.drop 1 := by
    have dropped := List.suffix_iff_eq_drop.mp latest
    rw [one] at dropped
    exact dropped
  refine ⟨by decide +kernel, by decide +kernel, shown, ?_, shows.trans (congrArg some layout)⟩
  rw [last]
  decide +kernel

/-- In a window of usual size there is no view once both panels are open. -/
theorem conversation_view_fails_with_panels :
    (conversed {} [.resized 80 24, .key .help, .key .globals]).initialized = true ∧
      (conversed {} [.resized 80 24, .key .help, .key .globals]).quitting = false ∧
      (conversed {} [.resized 80 24, .key .help, .key .globals]).field.hasRoom = true ∧
      (conversed {} [.resized 80 24, .key .help, .key .globals]).view? = none := by
  decide +kernel

end Screen

end LittleScript.Repl
