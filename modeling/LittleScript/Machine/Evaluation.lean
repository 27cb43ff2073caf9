import LittleScript.Machine.State

namespace LittleScript

/-!
# Actions of an evaluation

An evaluation acts on a machine, that is an interpreter in its world, and either yields a value or
stops.  Whatever stops it leaves the machine as it is at that point; `ensuring` is how control
state is put back on every way out.
-/

/-- An interpreter in its world. -/
structure Machine (σ : Type) where
  interpreter : Interpreter σ
  world : World σ

/-- What stops an evaluation for good. -/
inductive Stop where
  /-- Evaluations are nested too deeply. -/
  | tooDeep (error : FatalError)
  /-- The host crashed. -/
  | crash
  /-- The bound on the work of an evaluation is used up. -/
  | exhausted
  deriving Repr, DecidableEq

/-- An action on a machine that yields a value or stops. -/
abbrev Eval (σ α : Type) := EStateM Stop (Machine σ) α

/-- How nested code is run: the code, and whether a pending result of the frame is its value. -/
abbrev Run (σ : Type) := Text → Bool → Eval σ Text

namespace Eval

variable {σ α : Type}

/-- The interpreter. -/
def interpreter : Eval σ (Interpreter σ) :=
  fun machine => .ok machine.interpreter machine

/-- Look something up in the interpreter. -/
def inspect (view : Interpreter σ → α) : Eval σ α :=
  fun machine => .ok (view machine.interpreter) machine

/-- Change the interpreter. -/
def change (update : Interpreter σ → Interpreter σ) : Eval σ Unit :=
  fun machine => .ok () { machine with interpreter := update machine.interpreter }

/-- Change the world. -/
def touch (update : World σ → World σ) : Eval σ Unit :=
  fun machine => .ok () { machine with world := update machine.world }

/-- Change the world and take an answer from it. -/
def ask (update : World σ → α × World σ) : Eval σ α :=
  fun machine =>
    let (answer, world) := update machine.world
    .ok answer { machine with world }

/-- Run an action and then a cleanup, whether the action yields a value or stops. -/
def ensuring (action : Eval σ α) (cleanup : Machine σ → Machine σ) : Eval σ α :=
  fun machine =>
    match action machine with
    | .ok value after => .ok value (cleanup after)
    | .error stop after => .error stop (cleanup after)

/-- Add a record to the debug log. -/
def log (message : String) (fields : List (String × LogValue)) : Eval σ Unit :=
  touch fun world => world.record
    ⟨Text.ofString message, fields.map fun field => (Text.ofString field.1, field.2)⟩

/-- Whether an error is pending. -/
def hasError : Eval σ Bool :=
  inspect fun interpreter => interpreter.error.isSome

/-- Whether a `return` ends the code of the current frame. -/
def isStopping : Eval σ Bool :=
  inspect fun interpreter => interpreter.currentFrame.stopping

/-- Raise an error at an offset of the outermost text, unless one is pending: the first wins. -/
def raiseAt (offset : Int) (reason : Reason) : Eval σ Unit := do
  let interpreter ← interpreter
  if interpreter.error.isNone then
    change fun interpreter =>
      { interpreter with error := some (.locate reason interpreter.source offset) }
    log "script error" [("message", .text reason.message), ("pos", .number offset)]

/-- Where the outermost evaluation has its current command. -/
def commandStart : Eval σ Nat :=
  inspect fun interpreter => interpreter.active.getLast?.getD 0

/-- Raise an error at the command that the outermost evaluation is running. -/
def raise (reason : Reason) : Eval σ Unit := do
  raiseAt (← commandStart) reason

/-- Raise an error at an offset of the innermost text, when that is also the outermost one. -/
def raiseInnermost (offset : Int) (reason : Reason) : Eval σ Unit := do
  match ← inspect Interpreter.active with
  | [_] => raiseAt offset reason
  | _ => raise reason

/-- Drop the pending error. -/
def clearError : Eval σ Unit :=
  change fun interpreter => { interpreter with error := none }

/-- The log record of entering or leaving a frame. -/
def frameRecord (message : String) (machine : Machine σ) : Machine σ :=
  let entry : LogEntry :=
    ⟨Text.ofString message, [(Text.ofString "depth", .number machine.interpreter.depth)]⟩
  { machine with world := machine.world.record entry }

/-- Enter a new frame whose parent is the current frame. -/
def pushFrame : Eval σ Unit := do
  change fun interpreter =>
    let (id, extended) := interpreter.addFrame { parent := some interpreter.current }
    { extended with current := id }
  modify (frameRecord "push frame")

/-- Leave the current frame and release it; the root frame stays. -/
def popFrame : Eval σ Unit := do
  let interpreter ← interpreter
  match interpreter.currentFrame.parent with
  | none => return
  | some parent =>
      change fun interpreter =>
        { interpreter.updateCurrent Frame.release with current := parent }
      modify (frameRecord "pop frame")

/-- Run an action in a new frame, which is released afterwards. -/
def inNewFrame (frame : Frame) (action : Eval σ α) : Eval σ α := do
  let saved ← inspect Interpreter.current
  let id ← inspect fun interpreter => interpreter.frames.size
  change fun interpreter =>
    { (interpreter.addFrame frame).2 with current := id }
  modify (frameRecord "push frame")
  ensuring action fun machine =>
    frameRecord "pop frame"
      { machine with
        interpreter :=
          { machine.interpreter.updateFrame id Frame.release with current := saved } }

/-- Run an action in another frame with another down frame, and come back. -/
def inFrame (frame : FrameId) (down : Option FrameId) (action : Eval σ α) : Eval σ α := do
  let here ← inspect Interpreter.current
  let downHere ← inspect Interpreter.down
  change fun interpreter => { interpreter with current := frame, down }
  ensuring action fun machine =>
    { machine with
      interpreter := { machine.interpreter with current := here, down := downHere } }

/-- Write a text to where the host wants it. -/
def write (text : Text) : Eval σ Unit := do
  match (← interpreter).callbacks.write with
  | some handle => touch (handle text)
  | none => touch (·.write text)

/-- Read a text by name as the host wants it; the error is a message. -/
def readText (name : Text) : Eval σ (Except Text Text) := do
  match (← interpreter).callbacks.read with
  | some handle => ask (handle name)
  | none => ask fun world =>
      match Storage.read world.files name with
      | .ok text => (.ok text, world)
      | .error error => (.error error.message, world)

/-- Read code by name as the host wants it; the error is a message. -/
def readSource (name : Text) : Eval σ (Except Text Text) := do
  match (← interpreter).callbacks.source with
  | some handle => ask (handle name)
  | none => readText name

/-- Store a text by name as the host wants it; the error is a message. -/
def storeText (name text : Text) : Eval σ (Except Text Unit) := do
  match (← interpreter).callbacks.store with
  | some handle => ask (handle name text)
  | none => ask fun world =>
      match Storage.store world.files name text with
      | .ok files => (.ok (), { world with files })
      | .error error => (.error error.message, world)

/-- Why the context of the evaluation has been cancelled, if it has. -/
def cancellation : Eval σ (Option Cancellation) :=
  fun machine =>
    match machine.interpreter.context with
    | .background => .ok none machine
    | .running => .ok machine.world.cancellation machine

end Eval

end LittleScript
