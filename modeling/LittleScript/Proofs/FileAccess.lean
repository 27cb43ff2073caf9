import LittleScript.Proofs.Replacement
import LittleScript.Proofs.Serving

namespace LittleScript

/-!
# Access to files

A host that handles reading, storing and sourcing itself keeps scripts away from the local files,
except in jails: a jail has of the callbacks of its parent the one for output only, and reads and
stores local files.  Outside of jails it does not matter what the local files are.
-/

variable {σ : Type}

/-- The host handles reading, storing and sourcing itself. -/
structure Callbacks.HandlesFiles (callbacks : Callbacks σ) : Prop where
  read : callbacks.read.isSome = true
  store : callbacks.store.isSome = true
  source : callbacks.source.isSome = true

namespace Eval

/-! ## Other local files -/

/-- A way to read and to store local files; an error is a message. -/
structure LocalFiles (σ : Type) where
  read : Text → Eval σ (Except Text Text)
  store : Text → Text → Eval σ (Except Text Unit)

/-- The local files of the world. -/
def LocalFiles.ofWorld : LocalFiles σ where
  read name := ask fun world =>
    match Storage.read world.files name with
    | .ok text => (.ok text, world)
    | .error error => (.error error.message, world)
  store name text := ask fun world =>
    match Storage.store world.files name text with
    | .ok files => (.ok (), { world with files })
    | .error error => (.error error.message, world)

section Using

variable (files : LocalFiles σ)

/-- Read a text by name as the host wants it, or else from these local files. -/
def readTextFrom (name : Text) : Eval σ (Except Text Text) := do
  match (← interpreter).callbacks.read with
  | some handle => ask (handle name)
  | none => files.read name

/-- Read code by name as the host wants it, or else from these local files. -/
def readSourceFrom (name : Text) : Eval σ (Except Text Text) := do
  match (← interpreter).callbacks.source with
  | some handle => ask (handle name)
  | none => readTextFrom files name

/-- Store a text by name as the host wants it, or else in these local files. -/
def storeTextIn (name text : Text) : Eval σ (Except Text Unit) := do
  match (← interpreter).callbacks.store with
  | some handle => ask (handle name text)
  | none => files.store name text

/-- Call built-in commands with these local files; jails keep those of the world. -/
def builtinsUsing : Builtins σ := fun run rounds command arguments =>
  match command, arguments with
  | .read, name :: _ => do
      match ← readTextFrom files name with
      | .ok text => return .value text
      | .error error =>
          Command.logFailure "read failed" name error
          return .value []
  | .store, name :: text :: _ => do
      match ← storeTextIn files name text with
      | .ok () => return .value text
      | .error error =>
          Command.logFailure "store failed" name error
          return .value []
  | .source, name :: _ => do
      match ← readSourceFrom files name with
      | .ok code => return .value (← run code true)
      | .error error =>
          Command.logFailure "source failed" name error
          return .value []
  | .jailEvaluate, _ => Command.jailed (evaluate rounds) arguments
  | _, _ => callBuiltin run rounds command arguments

end Using

/-- With the local files of the world, built-in commands are called as ever. -/
theorem builtinsUsing_ofWorld
    (fuel : Nat)
    (command : Builtin)
    (arguments : List Text) :
    builtinsUsing (σ := σ) .ofWorld (evaluate fuel) fuel command arguments =
      callBuiltin (evaluate fuel) fuel command arguments := by
  unfold builtinsUsing
  split <;> rfl

theorem evaluateVia_ofWorld
    (fuel : Nat) :
    evaluateVia (σ := σ) (dispatchWith (builtinsUsing .ofWorld)) fuel = evaluate fuel := by
  induction fuel with
  | zero =>
      rfl
  | succ fuel inductionHypothesis =>
      have sameCalls : dispatchWith (builtinsUsing .ofWorld) (evaluate fuel) fuel =
          dispatch (σ := σ) (evaluate fuel) fuel := by
        funext command
        simp only [dispatchWith, builtinsUsing_ofWorld]
        rfl
      funext code ownResult
      rw [evaluateVia, evaluate, inductionHypothesis, sameCalls]
      exact scriptVia_dispatch (evaluate fuel) fuel code ownResult

/-! ## What a host handles -/

/-- A host that handles files is asked, whatever the local files are. -/
theorem builtinsUsing_of_handled
    (files : LocalFiles σ)
    (run : Run σ)
    (rounds : Nat)
    {command : Builtin}
    (notJail : command ≠ .jailEvaluate)
    (arguments : List Text)
    {machine : Machine σ}
    (handles : machine.interpreter.callbacks.HandlesFiles) :
    builtinsUsing files run rounds command arguments machine =
      callBuiltin run rounds command arguments machine := by
  obtain ⟨read, isRead⟩ := Option.isSome_iff_exists.mp handles.read
  obtain ⟨store, isStore⟩ := Option.isSome_iff_exists.mp handles.store
  obtain ⟨source, isSource⟩ := Option.isSome_iff_exists.mp handles.source
  unfold builtinsUsing
  split
  · refine bind_congr_first ?_
    simp only [readTextFrom, readText, interpreter_bind_apply, isRead]
  · refine bind_congr_first ?_
    simp only [storeTextIn, storeText, interpreter_bind_apply, isStore]
  · refine bind_congr_first ?_
    simp only [readSourceFrom, readSource, interpreter_bind_apply, isSource]
  · exact absurd rfl notJail
  · rfl

/-- Callbacks that handle files, in any context. -/
def handlesFiles (callbacks : Callbacks σ) (_ : Context) : Prop :=
  callbacks.HandlesFiles

theorem onward_handlesFiles :
    Onward (σ := σ) handlesFiles fun _ _ => True where
  trans _ _ := True.intro
  routine _ := True.intro
  performs _ _ _ := True.intro
  asked _ _ _ _ _ := True.intro

/--
Whatever the local files are, every evaluation on an interpreter whose host handles files ends
alike, apart from code in jails, which has the local files of the world.  With these for its local
files, evaluation is the usual one.
-/
theorem local_files_unused_outside_jails
    (files : LocalFiles σ)
    (fuel : Nat)
    (context : Context)
    (code : Text)
    (machine : Machine σ)
    (free : machine.interpreter.HostFree)
    (handles : machine.interpreter.callbacks.HandlesFiles) :
    machine.perform
        (evaluateIn (evaluateVia (dispatchWith (builtinsUsing files)) fuel) context code) =
      machine.perform (evaluateIn (evaluate fuel) context code) ∧
    evaluateVia (σ := σ) (dispatchWith (builtinsUsing .ofWorld)) fuel = evaluate fuel := by
  have leading : Leading (Scope.serving (σ := σ) handlesFiles).toRealm _ _ :=
    onward_handlesFiles.leading
  have through := leading.through_evaluate True.intro fun _ _ _ _ _ _ _ => ⟨id, True.intro⟩
  have calls : ∀ (other : Run σ) (fuel : Nat),
      (∀ code ownResult {machine : Machine σ},
        (Scope.serving handlesFiles).holds machine.interpreter →
        other code ownResult machine = evaluate fuel code ownResult machine) →
      ∀ command arguments {machine : Machine σ},
        (Scope.serving handlesFiles).holds machine.interpreter → True →
        builtinsUsing files other fuel command arguments machine =
          callBuiltin (evaluate fuel) fuel command arguments machine := by
    intro other fuel runs command arguments machine held _
    by_cases isJail : command = .jailEvaluate
    · rw [isJail]
      rfl
    · have allowed : (Scope.serving (σ := σ) handlesFiles).toRealm.unjailed.allowed command :=
        ⟨True.intro, isJail⟩
      rw [builtinsUsing_of_handled files other fuel isJail arguments held.2]
      exact (Assembled.callBuiltin fuel allowed arguments).congr_unjailed leading (through fuel)
        held runs
  have held : (Scope.serving handlesFiles).holds
      (outermostCall context code machine).machine.interpreter :=
    ⟨free, handles⟩
  have same := leading.evaluateVia_eq True.intro through calls fuel code true held
  refine ⟨?_, evaluateVia_ofWorld fuel⟩
  rw [Machine.perform, Machine.perform, evaluateIn_congr same]

/-! ## A host that counts how often it is asked -/

/-- A machine with a local file `f`, whose host handles files and counts how often it does. -/
def filing : Machine Nat where
  interpreter := .fresh {}
    { read := some fun _ world => (.ok (Text.ofString "host"), world.mapHost (· + 1))
      store := some fun _ _ world => (.ok (), world.mapHost (· + 1))
      source := some fun _ world => (.ok [], world.mapHost (· + 1)) }
  world := { host := 0, files := FileSystem.add {} (Text.ofString "f") (Text.ofString "local") }

theorem filing_handlesFiles :
    filing.interpreter.callbacks.HandlesFiles :=
  ⟨rfl, rfl, rfl⟩

/-- What the evaluation of a script on that machine has for its value, and how often it asked. -/
def readingOf (code : Text) : Option Text × Nat :=
  match filing.perform (evaluateIn (evaluate 3) .background code) with
  | (.finished ⟨value, none⟩, after) => (some value, after.world.host)
  | (_, after) => (none, after.world.host)

/-- The file is read from the host, and it does not matter what the local files are. -/
theorem local_files_unused_outside_jails_filing :
    filing.interpreter.HostFree ∧ filing.interpreter.callbacks.HandlesFiles ∧
      readingOf (Text.ofString "read f") = (some (Text.ofString "host"), 1) ∧
      ∀ files,
        filing.perform (evaluateIn (evaluateVia (dispatchWith (builtinsUsing files)) 3) .background
            (Text.ofString "read f")) =
          filing.perform (evaluateIn (evaluate 3) .background (Text.ofString "read f")) := by
  have free : filing.interpreter.HostFree := Interpreter.HostFree.fresh _ _
  refine ⟨free, filing_handlesFiles, by decide +kernel, fun files => ?_⟩
  exact (local_files_unused_outside_jails files 3 .background (Text.ofString "read f") filing free
    filing_handlesFiles).1

/-- In a jail a script reads a local file past the host. -/
theorem jail_reads_local_file :
    filing.interpreter.callbacks.HandlesFiles ∧
      readingOf (Text.ofString "jaileval \x7bread f\x7d") = (some (Text.ofString "local"), 0) :=
  ⟨filing_handlesFiles, by decide +kernel⟩

end Eval

end LittleScript
