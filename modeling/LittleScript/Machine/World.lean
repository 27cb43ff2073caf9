import LittleScript.Fault
import LittleScript.Storage

namespace LittleScript

/-!
# The world around an interpreter

What an evaluation can touch outside its interpreter: the output, the debug log, the files, the
cancellation of the running context, the source of random numbers, and the host's own state.
-/

/-- A value in the debug log. -/
inductive LogValue where
  | number (value : Int)
  | flag (value : Bool)
  | text (value : Text)
  deriving Repr, DecidableEq

/-- One record of the debug log. -/
structure LogEntry where
  message : Text
  fields : List (Text × LogValue)
  deriving Repr, DecidableEq

/-- Everything outside an interpreter; `σ` is the state of the host. -/
structure World (σ : Type) where
  /-- Texts written to the output, the latest first. -/
  written : List Text := []
  /-- Log records, the latest first. -/
  records : List LogEntry := []
  files : FileSystem := {}
  /-- Whether the running context has been cancelled, and why. -/
  cancellation : Option Cancellation := none
  randomness : UInt64 := 0x9e3779b97f4a7c15
  host : σ

namespace World

variable {σ : Type}

/-- Write a text to the output. -/
def write (world : World σ) (text : Text) : World σ :=
  { world with written := text :: world.written }

/-- Everything written to the output, in order. -/
def output (world : World σ) : Text :=
  world.written.reverse.flatten

/-- Add a record to the debug log. -/
def record (world : World σ) (entry : LogEntry) : World σ :=
  { world with records := entry :: world.records }

/-- The debug log, in order. -/
def log (world : World σ) : List LogEntry :=
  world.records.reverse

/-- Cancel the running context, unless it has already been cancelled. -/
def cancel (world : World σ) : World σ :=
  { world with cancellation := some (world.cancellation.getD .cancelled) }

/-- Change the state of the host. -/
def mapHost (world : World σ) (change : σ → σ) : World σ :=
  { world with host := change world.host }

/-- The next random number in `[0, 1)`. -/
def random (world : World σ) : Float × World σ :=
  let step := world.randomness
  let mixed := (step ^^^ (step >>> 30)) * 0xbf58476d1ce4e5b9
  let mixed := (mixed ^^^ (mixed >>> 27)) * 0x94d049bb133111eb
  let mixed := mixed ^^^ (mixed >>> 31)
  ((mixed >>> 11).toFloat / 9007199254740992.0,
    { world with randomness := step + 0x9e3779b97f4a7c15 })

end World

end LittleScript
