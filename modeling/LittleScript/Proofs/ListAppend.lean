import LittleScript.Proofs.FailedLists
import LittleScript.Proofs.ListCommands

namespace LittleScript

/-!
# Lists that grow in variables

The command `append` reads the list of the variable that its name means and stores the longer list
where an assignment by the same mode does.  Without the word that directs it to the root frame these
are one variable, so the list grows by the new elements.  With that word they are one variable only
if the current frame has no variable of the name: otherwise the list of the local variable, grown by
the new elements, replaces the global one.
-/

variable {σ : Type}

namespace Eval

/-- The value of the variable to which an assignment is directed, empty where there is none. -/
def ownValue (mode : Mode) (name : Text) (interpreter : Interpreter σ) : Text :=
  ((Composed.assigned? mode name interpreter).map fun found => found.2.value).getD []

/-- A name means the global variable where evaluation is at the root or has no local one. -/
def MeansGlobal (name : Text) (interpreter : Interpreter σ) : Prop :=
  interpreter.current = rootFrame ∨ interpreter.currentFrame.bindings.get? name = none

/-- An assignment by the usual mode is directed to the variable that the name means. -/
theorem ownValue_visible
    (name : Text)
    (interpreter : Interpreter σ) :
    ownValue .visible name interpreter = interpreter.valueOf name :=
  rfl

/-- An assignment to the root frame is, too, where the name means the global variable. -/
theorem ownValue_global
    {name : Text}
    {interpreter : Interpreter σ}
    (meansGlobal : MeansGlobal name interpreter) :
    ownValue .global name interpreter = interpreter.valueOf name := by
  have looked : interpreter.lookup? rootFrame name = interpreter.visible? name := by
    rcases meansGlobal with atRoot | missing
    · rw [Interpreter.visible?, atRoot]
    · rw [Interpreter.visible?, Interpreter.lookup?, Interpreter.lookup?,
        show (interpreter.frame interpreter.current).bindings.get? name = none from missing]
      cases (interpreter.frame rootFrame).bindings.get? name <;> rfl
  have assigned : Composed.assigned? .global name interpreter =
      interpreter.lookup? rootFrame name := rfl
  rw [ownValue, assigned, looked, Interpreter.valueOf]

/-- A local variable is what its name means. -/
theorem valueOf_of_local
    {name : Text}
    {interpreter : Interpreter σ}
    {held : Variable}
    (isLocal : interpreter.currentFrame.bindings.get? name = some held) :
    interpreter.valueOf name = held.value := by
  rw [Interpreter.valueOf, Interpreter.visible?, Interpreter.lookup?,
    show (interpreter.frame interpreter.current).bindings.get? name = some held from isLocal]
  rfl

/-- An assignment that is directed to the root frame stores there. -/
theorem storedIn_global
    (name : Text)
    (interpreter : Interpreter σ) :
    storedIn .global name interpreter = rootFrame := by
  cases known : (interpreter.frame rootFrame).bindings.get? name <;>
    simp [storedIn, owner, Composed.assigned?, Composed.assignedFrame, Interpreter.lookup?, known]

namespace AppendsTo

variable {arguments values : List Text} {mode : Mode} {name : Text}

/-- The list that the name means is read, and it is assigned with the new elements behind it. -/
theorem callBuiltin_eq
    (appends : AppendsTo arguments mode name values)
    (run : Run σ)
    (rounds : Nat)
    {machine : Machine σ}
    (noError : machine.interpreter.error = none)
    (unasked : machine.interpreter.callbacks.getVariable = none)
    {items : List Text}
    (reads : machine.interpreter.valueOf name = ListText.write items) :
    callBuiltin run rounds .append arguments machine =
      (setVariable run name (ListText.write (items ++ values)) mode >>= fun _ =>
        pure (.value (ListText.write (items ++ values)))) machine := by
  have called : callBuiltin run rounds .append arguments = Command.append run arguments := rfl
  have read : readList run (machine.interpreter.valueOf name) machine = .ok items machine := by
    rw [reads]
    exact readList_written run items noError
  rw [called, appends.append_eq, bind_of_ok (getVariable_apply name unasked), bind_of_ok read]

end AppendsTo

/--
Where nothing is watched and no host listens, `append` stores the list of the variable to which its
assignment is directed, with the new elements behind it, in that variable: in the one that the name
means or else a new one in the current frame, or in the root frame when it is directed there.  No
other variable changes, and the empty name stores nothing.  When it is directed to the root frame,
this is so if the name means the global variable there; if the current frame has a variable of the
name, its list with the new elements becomes the global one.
-/
theorem append_extends_own_list
    (run : Run σ)
    (rounds : Nat)
    {arguments values : List Text}
    {mode : Mode}
    {name : Text}
    (appends : AppendsTo arguments mode name values)
    {machine : Machine σ}
    (noError : machine.interpreter.error = none)
    (framed : machine.interpreter.WellFramed)
    (unasked : machine.interpreter.callbacks.getVariable = none)
    (unheard : machine.interpreter.callbacks.setVariable = none)
    (unwatched : ownWatch mode name machine.interpreter = []) :
    (∀ items, ownValue mode name machine.interpreter = ListText.write items →
      (mode = .global → MeansGlobal name machine.interpreter) →
      callBuiltin run rounds .append arguments machine =
        .ok (.value (ListText.write (items ++ values)))
          (storingNamed mode name (ListText.write (items ++ values)) machine)) ∧
    (∀ held items, mode = .global →
      machine.interpreter.currentFrame.bindings.get? name = some held →
      held.value = ListText.write items →
      callBuiltin run rounds .append arguments machine =
        .ok (.value (ListText.write (items ++ values)))
          (storingNamed mode name (ListText.write (items ++ values)) machine)) ∧
    storedIn mode name machine.interpreter =
      (if mode = .global then rootFrame
        else ((machine.interpreter.visible? name).map Prod.fst).getD
          machine.interpreter.current) ∧
    ∀ value, ∃ entry : Variable, entry.value = value ∧ entry.watch = [] ∧
      ∀ id other,
        ((storingNamed mode name value machine).interpreter.frame id).bindings.get? other =
          if name ≠ [] ∧ id = storedIn mode name machine.interpreter ∧ other = name then
            some entry
          else (machine.interpreter.frame id).bindings.get? other := by
  have grows : ∀ items, machine.interpreter.valueOf name = ListText.write items →
      callBuiltin run rounds .append arguments machine =
        .ok (.value (ListText.write (items ++ values)))
          (storingNamed mode name (ListText.write (items ++ values)) machine) := by
    intro items reads
    obtain ⟨stored, assigned⟩ := setVariable_eq_storingNamed run name
      (ListText.write (items ++ values)) framed unheard unwatched
    rw [appends.callBuiltin_eq run rounds noError unasked reads, bind_of_ok assigned]
    rfl
  have notFresh : mode ≠ .fresh := by cases appends <;> decide
  refine ⟨?_, ?_, ?_, fun value => ⟨storedEntry mode name value machine.interpreter,
    storedEntry_value mode name value _, (storedEntry_watch notFresh name value _).trans unwatched,
    get?_storingNamed mode name value framed⟩⟩
  · intro items owns meansGlobal
    refine grows items ?_
    cases appends with
    | visible => rwa [ownValue_visible] at owns
    | global => rwa [← ownValue_global (meansGlobal rfl)]
  · intro held items _ isLocal holds
    exact grows items ((valueOf_of_local isLocal).trans holds)
  · cases appends with
    | visible =>
        simp [storedIn, owner, Composed.assigned?, Composed.assignedFrame, Interpreter.visible?]
    | global => exact storedIn_global name machine.interpreter

/-- A global variable without a watch. -/
def globalEntry (name value : Text) : Variable where
  name := name
  owner := rootFrame
  value := value

/-- An interpreter with global variables `x` and `y`. -/
def globalLists : Interpreter Unit :=
  (({} : Interpreter Unit).putVariable rootFrame [0x78] (globalEntry [0x78] [0x61])).putVariable
    rootFrame [0x79] (globalEntry [0x79] [0x64])

theorem globalLists_wellFramed : globalLists.WellFramed :=
  have new : ({} : Interpreter Unit).WellFramed := .of_new rfl rfl rfl
  have one := new.of_sameParents (.putVariable _ rootFrame [0x78] _) rfl rfl
  one.of_sameParents (.putVariable _ rootFrame [0x79] _) rfl rfl

/-- A machine in a frame whose variable `x` hides the global one. -/
def hidingMachine : Machine Unit where
  interpreter :=
    { (globalLists.addFrame
        { parent := some rootFrame
          bindings := Table.empty.insert [0x78]
            { name := [0x78], owner := 1, value := [0x62] } }).2 with
      current := 1 }
  world := { host := () }

/-- The value of the variable that a frame of a machine has under a name. -/
def valueIn (machine : Machine σ) (id : FrameId) (name : Text) : Option Text :=
  ((machine.interpreter.frame id).bindings.get? name).map Variable.value

/--
A local list hides a global one and is extended alone; a global list is extended where no local one
hides it.
-/
theorem append_extends_own_list_hidden :
    (∃ after, callBuiltin (evaluate 1) 1 .append [[0x78], [0x63]] hidingMachine =
        .ok (.value (ListText.write [[0x62], [0x63]])) after ∧
      valueIn after 1 [0x78] = some (ListText.write [[0x62], [0x63]]) ∧
      valueIn after 0 [0x78] = some [0x61]) ∧
    ∃ after, callBuiltin (evaluate 1) 1 .append [Command.globalWord, [0x79], [0x63]]
        hidingMachine = .ok (.value (ListText.write [[0x64], [0x63]])) after ∧
      valueIn after 0 [0x79] = some (ListText.write [[0x64], [0x63]]) ∧
      valueIn after 1 [0x79] = none := by
  have framed : hidingMachine.interpreter.WellFramed :=
    globalLists_wellFramed.addFrame rfl globalLists_wellFramed.rooted
  obtain ⟨grows, -, -, holds⟩ := append_extends_own_list (evaluate 1) 1
    (.visible (show [0x78] ≠ Command.globalWord by decide) [0x63] []) rfl framed rfl rfl rfl
  obtain ⟨growsAtRoot, -, -, holdsAtRoot⟩ := append_extends_own_list (evaluate 1) 1
    (.global [0x79] [0x63] []) rfl framed rfl rfl rfl
  obtain ⟨entry, isValue, -, isStored⟩ := holds (ListText.write [[0x62], [0x63]])
  obtain ⟨entryAtRoot, isValueAtRoot, -, isStoredAtRoot⟩ :=
    holdsAtRoot (ListText.write [[0x64], [0x63]])
  refine ⟨⟨_, grows [[0x62]] rfl (by simp), ?_, ?_⟩,
    ⟨_, growsAtRoot [[0x64]] rfl fun _ => .inr rfl, ?_, ?_⟩⟩
  · exact (congrArg (Option.map Variable.value) (isStored 1 [0x78])).trans (congrArg some isValue)
  · exact congrArg (Option.map Variable.value) (isStored 0 [0x78])
  · exact (congrArg (Option.map Variable.value) (isStoredAtRoot 0 [0x79])).trans
      (congrArg some isValueAtRoot)
  · exact congrArg (Option.map Variable.value) (isStoredAtRoot 1 [0x79])

/-- An `append` that is directed to the root frame takes the elements of a local list there. -/
theorem append_global_reads_local :
    ∃ after, callBuiltin (evaluate 1) 1 .append [Command.globalWord, [0x78], [0x63]]
        hidingMachine = .ok (.value (ListText.write [[0x62], [0x63]])) after ∧
      valueIn after 0 [0x78] = some (ListText.write [[0x62], [0x63]]) ∧
      ownValue .global [0x78] hidingMachine.interpreter = ListText.write [[0x61]] ∧
      ListText.write [[0x62], [0x63]] ≠ ListText.write ([[0x61]] ++ [[0x63]]) :=
  ⟨_, rfl, rfl, rfl, by decide⟩

end Eval

end LittleScript
