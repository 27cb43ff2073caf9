import LittleScript.Proofs.Endurance
import LittleScript.Proofs.Serving
import LittleScript.Proofs.Tables

namespace LittleScript

/-!
# Assignments that a host mediates

A host with a callback for assignments is asked before a global variable gets a value, and its
answer is obeyed.  A variable that `local` or `watch` creates in the root frame is not assigned: it
is there, empty, without the host being asked.
-/

variable {σ : Type}

/-! ## Global variables -/

/-- The world, and the value of each global variable. -/
structure Globals (σ : Type) where
  world : World σ
  values : Text → Option Text

namespace Globals

/-- Give a global variable a value. -/
def put (globals : Globals σ) (name value : Text) : Globals σ :=
  { globals with
    values := fun other => if other = name then some value else globals.values other }

/-- What an assignment comes to when the host's answer to it is obeyed. -/
def obey (globals : Globals σ) (name value : Text) (answer : Assignment × World σ) : Globals σ :=
  match answer.1.stored value with
  | none => { globals with world := answer.2 }
  | some stored => { globals with world := answer.2 }.put name stored

end Globals

/-- The global variables of a machine. -/
def Machine.globals (machine : Machine σ) : Globals σ where
  world := machine.world
  values name :=
    ((machine.interpreter.frame rootFrame).bindings.get? name).map Variable.value

/--
How the global variables come from what they were at the start: the world goes on, or the host is
asked about the assignment of one and obeyed, or one that was missing is declared, empty, if that
is possible.
-/
inductive Governed (callbacks : Callbacks σ) (declares : Prop) (start : Globals σ) :
    Globals σ → Prop where
  | start :
      Governed callbacks declares start start
  | routine {globals : Globals σ} {world : World σ} :
      Governed callbacks declares start globals →
      globals.world.Routine world →
      Governed callbacks declares start { globals with world }
  | performs {globals : Globals σ} {update : World σ → World σ} :
      Governed callbacks declares start globals →
      callbacks.Performs update →
      Governed callbacks declares start { globals with world := update globals.world }
  | asked {globals : Globals σ} {handle : Text → Text → World σ → Assignment × World σ}
      (name value : Text) :
      Governed callbacks declares start globals →
      callbacks.setVariable = some handle →
      Governed callbacks declares start
        (globals.obey name value (handle name value globals.world))
  | declared {globals : Globals σ} (name : Text) :
      declares →
      Governed callbacks declares start globals →
      globals.values name = none →
      Governed callbacks declares start (globals.put name [])

namespace Governed

variable {callbacks : Callbacks σ} {declares : Prop} {start globals : Globals σ}

theorem trans
    {final : Globals σ}
    (first : Governed callbacks declares start globals)
    (second : Governed callbacks declares globals final) :
    Governed callbacks declares start final := by
  induction second with
  | start => exact first
  | routine _ routine inductionHypothesis => exact inductionHypothesis.routine routine
  | performs _ performs inductionHypothesis => exact inductionHypothesis.performs performs
  | asked name value _ handled inductionHypothesis =>
      exact inductionHypothesis.asked name value handled
  | declared name declares _ missing inductionHypothesis =>
      exact inductionHypothesis.declared name declares missing

theorem records
    (governed : Governed callbacks declares start globals)
    (entries : List LogEntry) :
    Governed callbacks declares start
      { globals with world := entries.foldl World.record globals.world } := by
  induction entries generalizing globals with
  | nil => exact governed
  | cons entry rest inductionHypothesis =>
      exact inductionHypothesis (governed.routine (.record entry))

/-- A variable whose every assignment is vetoed is never more than declared. -/
theorem of_vetoed
    (governed : Governed callbacks declares start globals)
    {name : Text}
    (vetoes : ∀ handle, callbacks.setVariable = some handle → ∀ value world,
      (handle name value world).1 = .veto)
    (missing : start.values name = none) :
    globals.values name = none ∨ declares ∧ globals.values name = some [] := by
  induction governed with
  | start => exact .inl missing
  | routine _ _ inductionHypothesis => exact inductionHypothesis
  | performs _ _ inductionHypothesis => exact inductionHypothesis
  | @asked globals handle other value _ handled inductionHypothesis =>
      rw [Globals.obey]
      cases answered : (handle other value globals.world).1.stored value with
      | none =>
          exact inductionHypothesis
      | some stored =>
          have differs : name ≠ other := fun same => by
            rw [← same, vetoes handle handled] at answered
            cases answered
          simpa [Globals.put, differs] using inductionHypothesis
  | declared other declares _ _ inductionHypothesis =>
      by_cases same : name = other
      · exact .inr ⟨declares, by simp [Globals.put, same]⟩
      · simpa [Globals.put, same] using inductionHypothesis

end Governed

/-! ## Runs -/

/-- An interpreter with accepted built-in commands and given callbacks, which has a root frame. -/
structure Interpreter.Mediated
    (accept : Builtin → Prop)
    (callbacks : Callbacks σ)
    (interpreter : Interpreter σ) : Prop where
  offers : interpreter.OffersOnly (Definition.Among accept)
  callbacks : interpreter.callbacks = callbacks
  rooted : 0 < interpreter.frames.size

/-- A variable that is put into a frame is a global one in the root frame only. -/
theorem Machine.globals_putVariable
    (machine : Machine σ)
    (rooted : 0 < machine.interpreter.frames.size)
    (frame : FrameId)
    (name : Text)
    (entry : Variable)
    (world : World σ) :
    (⟨machine.interpreter.putVariable frame name entry, world⟩ : Machine σ).globals =
      if frame = rootFrame then { machine.globals with world }.put name entry.value
      else { machine.globals with world } := by
  simp only [Machine.globals, Interpreter.putVariable, Interpreter.frame_updateFrame]
  by_cases isRoot : frame = rootFrame
  · have inside : rootFrame < machine.interpreter.frames.size := rooted
    simp only [isRoot, inside, and_self, if_true, Globals.put, Table.get?_insert, Globals.mk.injEq,
      true_and]
    funext other
    split <;> rfl
  · simp [isRoot]

namespace Eval

/-- The scope of scripts with accepted commands on an interpreter with given callbacks. -/
def Scope.mediated (accept : Builtin → Prop) (callbacks : Callbacks σ) : Scope σ where
  holds := Interpreter.Mediated accept callbacks
  reach _ := true
  allowed := accept
  drops := True
  free held := Interpreter.hostFree_iff.mpr
    (held.offers.mono fun _ accepted _ isHost => by rwa [isHost] at accepted)
  root := rfl
  current _ := rfl
  offers held named found := held.offers.of_get? named found
  up _ _ _ _ _ := rfl
  down _ _ _ _ _ := rfl

/-- The commands that put a variable into a frame without an assignment. -/
def Declares (accept : Builtin → Prop) : Prop :=
  accept .declareLocal ∨ accept .watch

section Mediated

variable {accept : Builtin → Prop} {callbacks : Callbacks σ}

/-- What is stored in the root frame is what the host has made of it. -/
theorem globals_store
    {machine : Machine σ}
    (rooted : 0 < machine.interpreter.frames.size)
    {handle : Text → Text → World σ → Assignment × World σ}
    (handled : machine.interpreter.callbacks.setVariable = some handle)
    (frame : FrameId)
    (name value : Text) :
    (final (store frame name value) machine).globals =
      if frame = rootFrame then machine.globals.obey name value (handle name value machine.world)
      else machine.globals := by
  by_cases isRoot : frame = rootFrame
  · have approved : approve frame name value machine =
        .ok ((handle name value machine.world).1.stored value)
          { machine with world := (handle name value machine.world).2 } := by
      rw [approve, isRoot]
      exact mediate_of_handled name value handled
    rw [if_pos isRoot, Globals.obey, final, store, bind_of_ok approved]
    cases (handle name value machine.world).1.stored value with
    | none =>
        rfl
    | some stored =>
        have puts := machine.globals_putVariable rooted frame name
          { machine.interpreter.entryAt frame name with value := stored }
          (handle name value machine.world).2
        rw [if_pos isRoot] at puts
        exact puts
  · have approved : approve frame name value machine = .ok (some value) machine := by
      have notRoot : (frame == rootFrame) = false := beq_false_of_ne isRoot
      simp only [approve, notRoot]
      rfl
    rw [if_neg isRoot, final, store, bind_of_ok approved]
    have puts := machine.globals_putVariable rooted frame name
      { machine.interpreter.entryAt frame name with value } machine.world
    rw [if_neg isRoot] at puts
    exact puts

/-- A variable that is missing in the root frame is missing among the global ones. -/
theorem globals_missing
    {machine : Machine σ}
    {name : Text}
    (missing : (machine.interpreter.frame rootFrame).bindings.get? name = none) :
    machine.globals.values name = none := by
  simp only [Machine.globals, missing, Option.map_none]

/-- A variable that the current frame lacks is declared there. -/
theorem governed_declare
    {machine : Machine σ}
    (rooted : 0 < machine.interpreter.frames.size)
    {name : Text}
    (missing : machine.interpreter.currentFrame.bindings.get? name = none)
    (watch : Text)
    (declares : Declares accept) :
    Governed callbacks (Declares accept) machine.globals
      (Machine.globals
        { machine with
          interpreter := (machine.interpreter.putVariable machine.interpreter.current name
            { name, owner := machine.interpreter.current, value := [], watch }) }) := by
  rw [machine.globals_putVariable rooted]
  by_cases isRoot : machine.interpreter.current = rootFrame
  · rw [if_pos isRoot]
    rw [Interpreter.currentFrame, isRoot] at missing
    exact Governed.start.declared name declares (globals_missing missing)
  · rw [if_neg isRoot]
    exact .start

/-- A variable that a name means is in the frame that holds it. -/
theorem Interpreter.get?_of_visible?
    {interpreter : Interpreter σ}
    {name : Text}
    {frame : FrameId}
    {entry : Variable}
    (known : interpreter.visible? name = some (frame, entry)) :
    (interpreter.frame frame).bindings.get? name = some entry := by
  rw [Interpreter.visible?, Interpreter.lookup?] at known
  split at known
  case h_1 found isThere =>
    cases known
    exact isThere
  case h_2 =>
    obtain ⟨found, isThere, isFound⟩ := Option.map_eq_some_iff.mp known
    cases isFound
    exact isThere

/-- Watching a variable leaves its value alone, and declares it if it is missing. -/
theorem governed_watch
    {machine : Machine σ}
    (rooted : 0 < machine.interpreter.frames.size)
    (name code : Text)
    (declares : Declares accept) :
    Governed callbacks (Declares accept) machine.globals
      (final (watch name code) machine).globals := by
  cases known : machine.interpreter.visible? name with
  | none =>
      have missing : machine.interpreter.currentFrame.bindings.get? name = none := by
        rw [Interpreter.visible?, Interpreter.lookup?] at known
        rw [Interpreter.currentFrame]
        split at known
        · cases known
        · assumption
      simp only [final, watch, change, known]
      exact governed_declare rooted missing code declares
  | some found =>
      obtain ⟨frame, entry⟩ := found
      simp only [final, watch, change, known]
      rw [machine.globals_putVariable rooted]
      split
      case isFalse =>
        exact .start
      case isTrue isRoot =>
        have unchanged : machine.globals.put name entry.value = machine.globals := by
          rw [Globals.put, Globals.mk.injEq]
          refine ⟨rfl, funext fun other => ?_⟩
          split
          case isTrue same =>
            have isThere := Interpreter.get?_of_visible? known
            rw [isRoot] at isThere
            simp only [same, Machine.globals, isThere, Option.map_some]
          case isFalse =>
            rfl
        exact unchanged.symm ▸ .start

/-- Where the root frame has the same variables, the global ones are the same. -/
theorem governed_of_root
    {declares : Prop}
    {before after : Machine σ}
    (routine : before.world.Routine after.world)
    (sameRoot : (after.interpreter.frame rootFrame).bindings =
      (before.interpreter.frame rootFrame).bindings) :
    Governed callbacks declares before.globals after.globals := by
  have isAfter : after.globals = { before.globals with world := after.world } := by
    simp only [Machine.globals, sameRoot]
  rw [isAfter]
  exact Governed.start.routine routine

/-- A move governs the global variables. -/
theorem Move.governed
    (handled : callbacks.setVariable.isSome = true)
    {before after : Machine σ}
    (held : before.interpreter.Mediated accept callbacks)
    (move : Move (Scope.mediated accept callbacks).toRealm before after) :
    Governed callbacks (Declares accept) before.globals after.globals := by
  cases move with
  | aside shape =>
      exact governed_of_root .same (shape.frame rootFrame).bindings
  | rename moved =>
      obtain ⟨functions, commands, rfl⟩ := Interpreter.rename_eq moved
      exact governed_of_root .same rfl
  | touch touches =>
      rcases touches with routine | ⟨interpreter, heldThere, performs⟩
      · exact Governed.start.routine (routine _)
      · exact Governed.start.performs (heldThere.callbacks ▸ performs)
  | store frame name value _ =>
      obtain ⟨handle, isHandle⟩ := Option.isSome_iff_exists.mp handled
      rw [globals_store held.rooted (held.callbacks ▸ isHandle)]
      split
      · exact Governed.start.asked name value isHandle
      · exact .start
  | declare name allowed missing =>
      exact governed_declare held.rooted missing [] (.inl allowed)
  | watch name code allowed =>
      exact governed_watch held.rooted name code (.inr allowed)
  | @push callee bindings _ _ =>
      have notNew : rootFrame ≠ before.interpreter.frames.size := Nat.ne_of_lt held.rooted
      have sameRoot := (before.interpreter.frame_addFrame rootFrame
        { callee.frame before.interpreter.current with bindings }).trans (if_neg notNew)
      exact governed_of_root (.record _) (congrArg Frame.bindings sameRoot)
  | define _ _ _ =>
      exact governed_of_root .same rfl
  | visit _ _ =>
      exact governed_of_root .same rfl

/-- From one machine to another the scope still holds and the global variables are governed. -/
def Governs (accept : Builtin → Prop) (callbacks : Callbacks σ) (before after : Machine σ) : Prop :=
  before.interpreter.Mediated accept callbacks →
    after.interpreter.Mediated accept callbacks ∧
      Governed callbacks (Declares accept) before.globals after.globals

theorem leading_governs
    (handled : callbacks.setVariable.isSome = true) :
    Leading (Scope.mediated accept callbacks).toRealm (Governs accept callbacks)
      fun _ _ => True where
  refl _ held := ⟨held, .start⟩
  trans first second held :=
    ⟨(second (first held).1).1, (first held).2.trans (second (first held).1).2⟩
  holds related held := (related held).1
  move held move _ := by
    refine ⟨⟨?_, ?_, ?_⟩, move.governed handled held⟩
    · exact move.offersOnly (fun _ _ => True.intro) held.offers
    · rw [move.surroundings.1]
      exact held.callbacks
    · exact Nat.lt_of_lt_of_le held.rooted move.size_le
  back _ _ _ held := ⟨⟨held.offers, held.callbacks, held.rooted⟩, governed_of_root .same rfl⟩
  pop {before after _} heldBefore _ held := by
    have notRoot : before.interpreter.frames.size ≠ rootFrame :=
      Nat.ne_of_gt heldBefore.rooted
    have releases := after.interpreter.frame_updateFrame before.interpreter.frames.size rootFrame
      Frame.release
    rw [if_neg fun isRoot => notRoot isRoot.1] at releases
    have sized : 0 < (after.interpreter.updateFrame before.interpreter.frames.size
        Frame.release).frames.size := by
      simpa [Interpreter.updateFrame] using held.rooted
    exact ⟨⟨held.offers, held.callbacks, sized⟩,
      governed_of_root (.record _) (congrArg Frame.bindings releases)⟩
  goesOnward _ := True.intro
  onwardTrans _ _ := True.intro

/-! ## Jails -/

/-- Of some callbacks only the one for output, in any context. -/
def outputOf (callbacks : Callbacks σ) (others : Callbacks σ) (_ : Context) : Prop :=
  others = { write := callbacks.write }

/-- What code in a jail does to the world, the host could have let the script do. -/
theorem onward_outputOf
    (callbacks : Callbacks σ)
    (declares : Prop) :
    Onward (outputOf callbacks) fun before after =>
      ∀ values, Governed callbacks declares ⟨before, values⟩ ⟨after, values⟩ where
  trans first second values := (first values).trans (second values)
  routine routine _ := Governed.start.routine routine
  performs served performs world values := by
    rw [served] at performs
    cases performs with
    | write text handled => exact Governed.start.performs (.write text handled)
    | exit _ handled => exact nomatch handled
    | read _ handled => exact nomatch handled
    | store _ _ handled => exact nomatch handled
    | source _ handled => exact nomatch handled
    | error _ handled => exact nomatch handled
    | getVariable _ handled => exact nomatch handled
  asked served handled := by
    rw [served] at handled
    exact nomatch handled

theorem governs_jail
    (fuel : Nat)
    (clean : Bool)
    (code : Text)
    (machine : Machine σ) :
    Governs accept callbacks machine
      { machine with world :=
        (final (evaluate fuel code true) (jailMachine clean machine)).world } := by
  intro held
  have heldJail : (Scope.serving (outputOf callbacks)).holds
      (jailMachine clean machine).interpreter := by
    obtain ⟨functions, commands, system, isJail⟩ := machine.interpreter.jail_eq clean
    refine ⟨((Scope.mediated accept callbacks).free held).jail clean, ?_⟩
    rw [jailMachine, isJail, ← held.callbacks]
    rfl
  have through := (onward_outputOf callbacks (Declares accept)).through_evaluate
    (fun others _ served => by rw [outputOf, served]) fuel
  exact ⟨⟨held.offers, held.callbacks, held.rooted⟩,
    (through.here code true heldJail).2 machine.globals.values⟩

theorem through_governs
    (handled : callbacks.setVariable.isSome = true)
    (fuel : Nat) :
    Through (Scope.mediated accept callbacks).toRealm (Governs accept callbacks) (evaluate fuel) :=
  (leading_governs handled).through_evaluate True.intro
    (fun fuel _ _ clean code machine _ => governs_jail fuel clean code machine) fuel

/-! ## Nested calls -/

/-- What happens before a nested call is governed. -/
theorem governs_nested
    (handled : callbacks.setVariable.isSome = true)
    {fuel remaining : Nat}
    {call inner : Call σ}
    (nested : Nested fuel call remaining inner)
    (held : call.machine.interpreter.Mediated accept callbacks) :
    Governs accept callbacks call.machine inner.machine := by
  have leading : Leading (Scope.mediated accept callbacks).toRealm _ _ := leading_governs handled
  induction nested with
  | here fuel call =>
      exact leading.refl _
  | @deeper fuel _ call next _ makes busy _ inductionHypothesis =>
      obtain ⟨calls, itinerary⟩ := script_exists_itinerary leading True.intro
        (through_governs handled fuel) fuel call.code call.ownResult held
      have reached := itinerary.reached _ (itinerary.mem_of_makes makes)
      cases reached with
      | here code ownResult led =>
          exact leading.trans led (inductionHypothesis (led held).1)
      | jailed clean code _ _ =>
          exact absurd (Interpreter.active_jail _ clean) busy

end Mediated

/-- Where an evaluation of a host arrives: where code nested in it starts, and at its end. -/
inductive Arrives (fuel : Nat) (context : Context) (code : Text) (machine : Machine σ) :
    Machine σ → Prop where
  | nested {remaining : Nat} {inner : Call σ} :
      Nested fuel (outermostCall context code machine) remaining inner →
      Arrives fuel context code machine inner.machine
  | ended :
      Arrives fuel context code machine
        (machine.perform (evaluateIn (evaluate fuel) context code)).2

/--
Wherever an evaluation arrives, the global variables have come there by assignments about which the
host was asked and was obeyed, and by declarations of missing ones with `local` or `watch`, if the
interpreter has these commands.  So a variable whose assignments the host vetoes is still missing,
or has been declared and is empty.
-/
theorem global_assignments_mediated
    (fuel : Nat)
    (context : Context)
    (code : Text)
    (machine : Machine σ)
    {accept : Builtin → Prop}
    {handle : Text → Text → World σ → Assignment × World σ}
    (offers : machine.interpreter.OffersOnly (Definition.Among accept))
    (handled : machine.interpreter.callbacks.setVariable = some handle)
    (rooted : 0 < machine.interpreter.frames.size)
    (idle : machine.interpreter.active = [])
    (after : Machine σ)
    (arrives : Arrives fuel context code machine after) :
    Governed machine.interpreter.callbacks (Declares accept) machine.globals after.globals ∧
      ∀ name, (∀ value world, (handle name value world).1 = .veto) →
        machine.globals.values name = none →
        after.globals.values name = none ∨
          Declares accept ∧ after.globals.values name = some [] := by
  have isHandled : machine.interpreter.callbacks.setVariable.isSome = true := by
    rw [handled, Option.isSome_some]
  have held : (outermostCall context code machine).machine.interpreter.Mediated accept
      machine.interpreter.callbacks :=
    ⟨offers, rfl, rooted⟩
  have governed : Governed machine.interpreter.callbacks (Declares accept) machine.globals
      after.globals := by
    cases arrives with
    | nested nested =>
        exact (governs_nested isHandled nested held held).2
    | ended =>
        have runs := ((through_governs isHandled fuel).here code true held held).2
        obtain ⟨entries, isWorld⟩ := world_evaluateIn (evaluate fuel) context code machine idle
        have isInterpreter := final_evaluateIn (evaluate fuel) context code machine
        rw [perform_snd]
        simp only [Machine.globals, isWorld, isInterpreter]
        exact runs.records entries
  refine ⟨governed, fun name vetoes missing => governed.of_vetoed ?_ missing⟩
  intro other isOther
  rw [handled] at isOther
  cases isOther
  exact vetoes

/-! ## A host with a variable of its own -/

/-- A machine whose host vetoes every assignment to `n`, and counts how often it is asked. -/
def guarding : Machine Nat where
  interpreter := .fresh {}
    { setVariable := some fun name _ world =>
        (if name = Text.ofString "n" then .veto else .accept, world.mapHost (· + 1)) }
  world := { host := 0 }

/-- What `n` is after the evaluation of a script, and how often the host was asked. -/
def guardedAfter (code : Text) : Option Text × Nat :=
  let after := (guarding.perform (evaluateIn (evaluate 2) .background code)).2
  (after.globals.values (Text.ofString "n"), after.world.host)

/-- A script that tries to assign to `n`. -/
def assigning : Text :=
  Text.ofString "set n 1;foreach n \x7b1 2\x7d \x7b\x7d"

/-- A host that vetoes all three assignments is asked about each, and none is made. -/
theorem global_assignments_mediated_guarding :
    guardedAfter assigning = (none, 3) ∧
      Governed guarding.interpreter.callbacks (Declares fun _ => True) guarding.globals
        (guarding.perform (evaluateIn (evaluate 2) .background assigning)).2.globals := by
  have free : guarding.interpreter.HostFree := Interpreter.HostFree.fresh _ _
  refine ⟨by decide +kernel, ?_⟩
  exact (global_assignments_mediated 2 .background assigning guarding free.within.offers rfl
    (by decide +kernel) (by decide +kernel) _ .ended).1

/-- A script makes a variable global, past a host that vetoes its every assignment. -/
theorem local_declares_vetoed_global :
    guarding.globals.values (Text.ofString "n") = none ∧
      guardedAfter (Text.ofString "local n") = (some [], 0) ∧
      guardedAfter (Text.ofString "watch n \x7b\x7d") = (some [], 0) := by
  refine ⟨?_, ?_, ?_⟩
  · decide +kernel
  · decide +kernel
  · decide +kernel

end Eval

end LittleScript
