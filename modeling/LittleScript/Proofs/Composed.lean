import LittleScript.Proofs.Commands
import LittleScript.Proofs.HostFree
import LittleScript.Proofs.Veiled

namespace LittleScript.Eval

/-!
# What evaluation is composed of

Scripts, the commands in them and the readers of words are put together from few kinds of steps:
they look at the interpreter, change it in one of a few ways, record an error unless one is pending,
turn to the world, run nested code, do any of this in another frame and come back, catch an error of
nested code, and open jails.  `Composed` says so of an action, once; every property of all commands
is then proved by an induction over these steps.
-/

variable {σ α β : Type}

/-- The ways in which a script and its commands change their interpreter, its error apart. -/
inductive Step (reach : FrameId → Bool) : (Interpreter σ → Interpreter σ) → Prop where
  | putVariable (frame : FrameId) (name : Text) (entry : Variable) :
      reach frame = true →
      Step reach fun interpreter => interpreter.putVariable frame name entry
  | define (name : Text) (parameters : List Text) (body : Text) :
      Step reach fun interpreter => interpreter.define name (.script parameters body)
  | rename (old new : Text) :
      Step reach fun interpreter => (interpreter.rename old new).toOption.getD interpreter
  | setCatcher (code : Text) :
      Step reach fun interpreter => { interpreter with catcher := code }
  | setDollar (expansion : Text) :
      Step reach fun interpreter => { interpreter with dollar := expansion }
  | count (tally : Statistics → Statistics) :
      Step reach fun interpreter =>
        { interpreter with statistics := tally interpreter.statistics }
  | finish (value : Text) :
      Step reach fun interpreter => interpreter.updateCurrent fun frame =>
        { frame with stopping := true, result := some value }
  | provide (value : Text) :
      Step reach fun interpreter => interpreter.updateCurrent fun frame =>
        { frame with result := some value }
  | resume :
      Step reach fun interpreter => interpreter.updateCurrent fun frame =>
        { frame with stopping := false }
  | take :
      Step reach fun interpreter => interpreter.updateCurrent fun frame =>
        { frame with result := none, stopping := false }
  | mark (offset : Nat) :
      Step reach fun interpreter =>
        { interpreter with active := offset :: interpreter.active.tail }

/-- Run an action as one more catcher. -/
def inCatcher (action : Eval σ α) : Eval σ α := do
  let before ← inspect Interpreter.catchers
  change fun interpreter => { interpreter with catchers := interpreter.catchers + 1 }
  ensuring action fun machine =>
    { machine with interpreter := { machine.interpreter with catchers := before } }

/--
Run code and go on with its value; an error that it leaves is dropped and caught.  With an error
pending before, the code is not run.
-/
def catching
    (run : Run σ)
    (code : Text)
    (refused : Eval σ α)
    (passed : Text → Eval σ α)
    (caught : Eval σ α) :
    Eval σ α := do
  if ← hasError then refused
  else
    let value ← run code false
    if ← hasError then
      clearError
      caught
    else passed value

/--
What an action is confined to: what is true of the interpreters that it looks at, the frames whose
variables are within its reach, the built-in commands that it may call, and whether it may drop a
pending error other than by catching it.
-/
structure Realm (σ : Type) where
  holds : Interpreter σ → Prop
  reach : FrameId → Bool
  allowed : Builtin → Prop
  drops : Prop
  root : reach rootFrame = true
  current : ∀ {interpreter}, holds interpreter → reach interpreter.current = true
  up : allowed .upEvaluate → ∀ {interpreter parent}, holds interpreter →
    interpreter.currentFrame.parent = some parent → reach parent = true
  down : allowed .downEvaluate → ∀ {interpreter frame}, holds interpreter →
    interpreter.down = some frame → reach frame = true

/-- A realm whose interpreters offer no host commands, and built-in ones that may be called only. -/
structure Scope (σ : Type) extends Realm σ where
  free : ∀ {interpreter}, holds interpreter → interpreter.HostFree
  offers : ∀ {interpreter name id title command}, holds interpreter →
    interpreter.commands.get? name = some id →
    interpreter.function? id = some ⟨title, .builtin command⟩ →
    allowed command

/-- The realm of interpreters without host commands, with every frame within reach. -/
def Realm.hostFree (allowed : Builtin → Prop) (drops : Prop) : Realm σ where
  holds := Interpreter.HostFree
  reach _ := true
  allowed := allowed
  drops := drops
  root := rfl
  current _ := rfl
  up _ _ _ _ _ := rfl
  down _ _ _ _ _ := rfl

/-- The scope of everything on an interpreter without host commands. -/
def Scope.whole (drops : Prop) : Scope σ where
  toRealm := .hostFree (fun _ => True) drops
  free := id
  offers _ _ _ := True.intro

/--
An action that is put together from such steps within a realm, whatever runs the code nested in it.
What it does does not hang on variables out of reach, and it catches errors of nested code only
where `try` may be called.
-/
inductive Composed (realm : Realm σ) : {α : Type} → (Run σ → Eval σ α) → Prop where
  | pure {α : Type} (value : α) :
      Composed realm fun _ => Pure.pure value
  | bind {α β : Type} {first : Run σ → Eval σ α} {next : Run σ → α → Eval σ β} :
      Composed realm first →
      (∀ value, Composed realm fun run => next run value) →
      Composed realm fun run => first run >>= next run
  | consult {α β : Type} (view : Interpreter σ → α) {next : Run σ → α → Eval σ β}
      (blind : ∀ run interpreter, realm.holds interpreter →
        next run (view (interpreter.veiled realm.reach)) = next run (view interpreter))
      (composed : ∀ interpreter, realm.holds interpreter →
        Composed realm fun run => next run (view interpreter)) :
      Composed realm fun run => inspect view >>= next run
  | step {update : Interpreter σ → Interpreter σ} :
      Step realm.reach update →
      Composed realm fun _ => change update
  | record (offset : Int) (reason : Reason) :
      Composed realm fun _ => raiseAt offset reason
  | drop :
      realm.drops →
      Composed realm fun _ => clearError
  | ask {α : Type} (answer : World σ → α × World σ) :
      Composed realm fun _ => Eval.ask answer
  | observe {α : Type} (view : Context → World σ → α) :
      Composed realm fun _ => fun machine =>
        .ok (view machine.interpreter.context machine.world) machine
  | halt {α : Type} (stop : Stop) :
      stop ≠ .crash →
      (stop = .exhausted → realm.allowed .whileLoop ∨ realm.allowed .forLoop) →
      Composed realm fun _ => (throw stop : Eval σ α)
  | nested (code : Text) (ownResult : Bool) :
      Composed realm fun run => run code ownResult
  | inFrame {α : Type} (frame : FrameId) (down : Option FrameId) {action : Run σ → Eval σ α} :
      realm.reach frame = true →
      (∀ id, down = some id → realm.reach id = true) →
      Composed realm action →
      Composed realm fun run => Eval.inFrame frame down (action run)
  | inNewFrame {α : Type} (frame : Frame) {action : Run σ → Eval σ α} :
      (∀ parent, frame.parent = some parent → realm.reach parent = true) →
      Composed realm action →
      Composed realm fun run => Eval.inNewFrame frame (action run)
  | runWatch (frame : FrameId) (code : Text) :
      realm.reach frame = true →
      Composed realm fun run => Eval.runWatch run frame code
  | inCatcher {α : Type} {action : Run σ → Eval σ α} :
      Composed realm action →
      Composed realm fun run => Eval.inCatcher (action run)
  | catching {α : Type} (code : Text) {refused caught : Run σ → Eval σ α}
      {passed : Run σ → Text → Eval σ α} :
      realm.allowed .attempt →
      Composed realm refused →
      (∀ value, Composed realm fun run => passed run value) →
      Composed realm caught →
      Composed realm fun run =>
        Eval.catching run code (refused run) (passed run) (caught run)
  | jail {parent : Interpreter σ} (clean : Bool) (context : Context) (code : Text) :
      realm.allowed .jailEvaluate →
      realm.holds parent →
      Composed realm fun run =>
        onInterpreter (jailInterpreter parent clean) (evaluateIn run context code)

namespace Composed

variable {realm : Realm σ}

/-- Looking at the whole interpreter. -/
theorem look
    {next : Run σ → Interpreter σ → Eval σ β}
    (blind : ∀ run interpreter, realm.holds interpreter →
      next run (interpreter.veiled realm.reach) = next run interpreter)
    (composed : ∀ interpreter, realm.holds interpreter →
      Composed realm fun run => next run interpreter) :
    Composed realm fun run => interpreter >>= next run :=
  .consult id blind composed

theorem inspect
    (view : Interpreter σ → α)
    (blind : ∀ interpreter, realm.holds interpreter →
      view (interpreter.veiled realm.reach) = view interpreter) :
    Composed realm fun _ => Eval.inspect view := by
  refine .consult view ?_ fun interpreter _ => .pure (view interpreter)
  intro _ interpreter held
  rw [blind interpreter held]

/-- Looking whether the context has been cancelled. -/
theorem cancellation :
    Composed realm fun _ => Eval.cancellation := by
  have asObservation :
      Eval.cancellation (σ := σ) = fun machine =>
        .ok
          (if machine.interpreter.context = .running then machine.world.cancellation else none)
          machine := by
    funext machine
    simp only [Eval.cancellation]
    cases machine.interpreter.context with
    | background =>
        rfl
    | running =>
        rfl
  rw [asObservation]
  exact .observe fun context world => if context = .running then world.cancellation else none

end Composed

end LittleScript.Eval
