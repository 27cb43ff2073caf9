import LittleScript.Proofs.Itineraries

namespace LittleScript

/-!
# What a host serves

Every run leaves the callbacks and the context of its interpreter alone; a jail has the context of
its parent and, of its callbacks, the one for output.  So what is true of the changes that the
callbacks make to the world, and of those that evaluation makes by itself, is true of every run.
-/

variable {σ : Type}

/-- A new jail has the limits and the output of its parent, and is otherwise as new. -/
theorem Interpreter.jail_eq
    (parent : Interpreter σ)
    (clean : Bool) :
    ∃ functions commands system,
      Eval.jailInterpreter parent clean =
        { limits := parent.limits, callbacks := { write := parent.callbacks.write }, functions,
          commands, system } := by
  obtain ⟨functions, commands, system, isFresh⟩ :=
    fresh_eq parent.limits ({ write := parent.callbacks.write } : Callbacks σ)
  rw [Eval.jailInterpreter]
  split
  · exact ⟨functions, commands, system, isFresh⟩
  · obtain ⟨extended, names, isExtended⟩ := foldl_define_eq Function.name Function.definition
      parent.hostCommands
      (Interpreter.fresh parent.limits ({ write := parent.callbacks.write } : Callbacks σ))
    refine ⟨extended, names, system, ?_⟩
    rw [isExtended, isFresh]

namespace Eval

/-- The scope of interpreters without host commands whose callbacks and context are of a kind. -/
def Scope.serving (serves : Callbacks σ → Context → Prop) : Scope σ where
  holds interpreter := interpreter.HostFree ∧ serves interpreter.callbacks interpreter.context
  reach _ := true
  allowed _ := True
  drops := True
  free held := held.1
  root := rfl
  current _ := rfl
  offers _ _ _ := True.intro
  up _ _ _ _ _ := rfl
  down _ _ _ _ _ := rfl

/-- A relation between worlds that respects what evaluation and callbacks of a kind do. -/
structure Onward
    (serves : Callbacks σ → Context → Prop)
    (onward : World σ → World σ → Prop) : Prop where
  trans : ∀ {first second third}, onward first second → onward second third → onward first third
  routine : ∀ {world after : World σ}, world.Routine after → onward world after
  performs : ∀ {callbacks context update}, serves callbacks context →
    callbacks.Performs update → ∀ world, onward world (update world)
  asked : ∀ {callbacks context handle}, serves callbacks context →
    callbacks.setVariable = some handle → ∀ name value world,
    onward world (handle name value world).2

/-- From one machine to another the kind of callbacks and context is kept, the world goes onward. -/
def Serving (serves : Callbacks σ → Context → Prop) (onward : World σ → World σ → Prop)
    (before after : Machine σ) : Prop :=
  ((Scope.serving serves).holds before.interpreter →
    (Scope.serving serves).holds after.interpreter) ∧
    onward before.world after.world

variable {serves : Callbacks σ → Context → Prop} {onward : World σ → World σ → Prop}

/-- Moves are made with the callbacks and in the context that were there before. -/
theorem Onward.leading
    (onwards : Onward serves onward) :
    Leading (Scope.serving serves).toRealm (Serving serves onward) onward where
  refl _ := ⟨id, onwards.routine .same⟩
  trans first second := ⟨second.1 ∘ first.1, onwards.trans first.2 second.2⟩
  holds related := related.1
  move held move := by
    refine ⟨fun _ => ⟨?_, ?_⟩, ?_⟩
    · exact move.hostFree held.1
    · rw [move.surroundings.1, move.surroundings.2]
      exact held.2
    · rcases move.world with ⟨update, routine | ⟨interpreter, served, performs⟩, isWorld⟩ |
        ⟨handle, name, value, handled, isWorld⟩
      · rw [isWorld]
        exact onwards.routine (routine _)
      · rw [isWorld]
        exact onwards.performs served.2 performs _
      · rw [isWorld]
        exact onwards.asked held.2 handled name value _
  back _ _ _ := ⟨id, onwards.routine .same⟩
  pop _ _ := ⟨id, onwards.routine (.record _)⟩
  goesOnward related := related.2
  onwardTrans := onwards.trans

/-- A jail is served if its output is, of all callbacks, and it has no host commands. -/
theorem holds_jailMachine_of_output
    {clean : Bool}
    {machine : Machine σ}
    (free : (jailInterpreter machine.interpreter clean).HostFree)
    (output : serves { write := machine.interpreter.callbacks.write }
      machine.interpreter.context) :
    (Scope.serving serves).holds (jailMachine clean machine).interpreter := by
  obtain ⟨functions, commands, system, isJail⟩ := machine.interpreter.jail_eq clean
  refine ⟨free, ?_⟩
  rw [jailMachine, isJail]
  exact output

/-- A jail is served like its parent, if its callbacks are of the same kind. -/
theorem holds_jailMachine
    (jails : ∀ callbacks context, serves callbacks context →
      serves { write := callbacks.write } context)
    (clean : Bool)
    {machine : Machine σ}
    (held : (Scope.serving serves).holds machine.interpreter) :
    (Scope.serving serves).holds (jailMachine clean machine).interpreter :=
  holds_jailMachine_of_output (held.1.jail clean) (jails _ _ held.2)

theorem Onward.through_evaluate
    (onwards : Onward serves onward)
    (jails : ∀ callbacks context, serves callbacks context →
      serves { write := callbacks.write } context)
    (fuel : Nat) :
    Through (Scope.serving serves).toRealm (Serving serves onward) (evaluate fuel) :=
  onwards.leading.through_evaluate True.intro
    (fun _ leads _ clean code _ held =>
      ⟨id, (leads code true (holds_jailMachine jails clean held)).2⟩)
    fuel

end Eval

end LittleScript
