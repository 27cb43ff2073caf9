import LittleScript.Proofs.FrameTree
import LittleScript.Proofs.Moves
import LittleScript.Proofs.NestingBound
import LittleScript.Proofs.SubstitutedValues

namespace LittleScript

/-!
# Reading variables behind a dollar

A dollar reads no variable itself: the name is written as a list behind what the dollar expands to,
and the text is run as code.  By default that is the command that assigns variables, which with one
name reads it.  So what has been assigned is read back, whatever bytes the name and the value hold,
except under the name that this command takes for the word that directs it to the root frame.
-/

open Source (Cursor)

variable {σ : Type}

namespace Interpreter

/-! ## Variables that have been put into a frame -/

/-- A frame in which a variable is visible from the current frame, or would be if it were there. -/
def Shows (interpreter : Interpreter σ) (name : Text) (id : FrameId) : Prop :=
  id = interpreter.current ∨
    id = rootFrame ∧ interpreter.currentFrame.bindings.get? name = none

theorem get?_putVariable
    (interpreter : Interpreter σ)
    {id : FrameId}
    (inside : id < interpreter.frames.size)
    (name : Text)
    (entry : Variable)
    (other : FrameId) :
    ((interpreter.putVariable id name entry).frame other).bindings.get? name =
      if id = other then some entry else (interpreter.frame other).bindings.get? name := by
  rw [putVariable, frame_updateFrame]
  by_cases same : id = other
  · subst same
    simp [inside, Table.get?_insert]
  · simp [same]

/-- The variable that is put into a frame last replaces the one before. -/
theorem putVariable_putVariable
    (interpreter : Interpreter σ)
    (id : FrameId)
    (name : Text)
    (first second : Variable) :
    (interpreter.putVariable id name first).putVariable id name second =
      interpreter.putVariable id name second := by
  have sameFrames : ∀ frames : Array Frame,
      (frames.modify id fun frame => { frame with bindings := frame.bindings.insert name first }
        ).modify id (fun frame => { frame with bindings := frame.bindings.insert name second }) =
        frames.modify id fun frame =>
          { frame with bindings := frame.bindings.insert name second } := by
    intro frames
    refine Array.ext (by simp) fun place _ _ => ?_
    simp only [Array.getElem_modify]
    split <;> simp [Table.insert_insert]
  simp only [putVariable, updateFrame, sameFrames]

/-- A variable that is put into a frame that shows it is what its name means. -/
theorem visible?_putVariable
    {interpreter : Interpreter σ}
    {name : Text}
    {id : FrameId}
    (inside : id < interpreter.frames.size)
    (shows : interpreter.Shows name id)
    (entry : Variable) :
    (interpreter.putVariable id name entry).visible? name = some (id, entry) := by
  have held := interpreter.get?_putVariable inside name entry
  have sameCurrent : (interpreter.putVariable id name entry).current = interpreter.current := rfl
  rw [visible?, lookup?, sameCurrent]
  rcases shows with rfl | ⟨rfl, missing⟩
  · rw [held, if_pos rfl]
  · by_cases atRoot : rootFrame = interpreter.current
    · rw [held, if_pos atRoot, ← atRoot]
    · have stillMissing : ((interpreter.putVariable rootFrame name entry).frame
          interpreter.current).bindings.get? name = none := by
        rw [held, if_neg atRoot]
        exact missing
      rw [stillMissing, held, if_pos rfl]
      rfl

/-- The value of the variable that a name means, empty when it means none. -/
def valueOf (interpreter : Interpreter σ) (name : Text) : Text :=
  ((interpreter.visible? name).map fun found => found.2.value).getD []

end Interpreter

namespace Eval

/-- A host that does not answer for variables leaves them their values. -/
theorem getVariable_apply
    (name : Text)
    {machine : Machine σ}
    (unasked : machine.interpreter.callbacks.getVariable = none) :
    getVariable name machine = .ok (machine.interpreter.valueOf name) machine := by
  have read : getVariableD name (some []) machine =
      .ok (some (machine.interpreter.valueOf name)) machine := by
    simp only [getVariableD, interpreter_bind_apply, unasked, Interpreter.valueOf]
    cases machine.interpreter.visible? name <;> rfl
  rw [getVariable, bind_of_ok read]
  rfl

/-- A host that does not answer for variables leaves them all their values. -/
theorem getVariables_apply
    {machine : Machine σ}
    (unasked : machine.interpreter.callbacks.getVariable = none)
    (names : List Text) :
    getVariables names machine = .ok (names.map machine.interpreter.valueOf) machine := by
  induction names with
  | nil =>
      rfl
  | cons name rest inductionHypothesis =>
      rw [getVariables, bind_of_ok (getVariable_apply name unasked),
        bind_of_ok inductionHypothesis]
      rfl

/-! ## Where assignments store values -/

/-- Where an assignment by a mode stores its value, also where it makes a new variable. -/
def storedIn (mode : Mode) (name : Text) (interpreter : Interpreter σ) : FrameId :=
  if mode = .fresh then interpreter.current else owner mode name interpreter

/-- The variable that an assignment by a mode puts in place of the one before, or as a new one. -/
def storedEntry (mode : Mode) (name value : Text) (interpreter : Interpreter σ) : Variable :=
  if mode = .fresh then { name, owner := interpreter.current, value }
  else { interpreter.entryAt (owner mode name interpreter) name with value }

@[simp]
theorem storedEntry_value
    (mode : Mode)
    (name value : Text)
    (interpreter : Interpreter σ) :
    (storedEntry mode name value interpreter).value = value := by
  rw [storedEntry]
  split <;> rfl

theorem storedEntry_watch
    {mode : Mode}
    (notFresh : mode ≠ .fresh)
    (name value : Text)
    (interpreter : Interpreter σ) :
    (storedEntry mode name value interpreter).watch = ownWatch mode name interpreter := by
  rw [storedEntry, if_neg notFresh]
  exact watch_entryAt_owner mode name interpreter

/-- The machine behind an assignment that stores a value. -/
def storing (mode : Mode) (name value : Text) (machine : Machine σ) : Machine σ :=
  { machine with
    interpreter := machine.interpreter.putVariable (storedIn mode name machine.interpreter) name
      (storedEntry mode name value machine.interpreter) }

theorem storedIn_root_or_current
    (mode : Mode)
    (name : Text)
    (interpreter : Interpreter σ) :
    storedIn mode name interpreter = rootFrame ∨
      storedIn mode name interpreter = interpreter.current := by
  rw [storedIn]
  split
  · exact .inr rfl
  · exact owner_root_or_current mode name interpreter

/-- By the usual mode a value is stored in the variable that the name means, or in a new one. -/
theorem storedIn_visible
    (name : Text)
    (interpreter : Interpreter σ) :
    storedIn .visible name interpreter =
      ((interpreter.visible? name).map Prod.fst).getD interpreter.current := by
  simp [storedIn, owner, Composed.assigned?, Composed.assignedFrame, Interpreter.visible?]

/-- A host that does not listen leaves every value as it is. -/
theorem approve_of_unheard
    (id : FrameId)
    (name value : Text)
    {machine : Machine σ}
    (unheard : machine.interpreter.callbacks.setVariable = none) :
    approve id name value machine = .ok (some value) machine := by
  rw [approve]
  split
  · exact mediate_of_unhandled name value unheard
  · rfl

/-- Without a watch, and if the host leaves the value, an assignment only stores it. -/
theorem setVariable_of_approved
    (run : Run σ)
    {name : Text}
    (named : name ≠ [])
    (value : Text)
    {mode : Mode}
    {machine : Machine σ}
    (inside : storedIn mode name machine.interpreter < machine.interpreter.frames.size)
    (approved : approve (owner mode name machine.interpreter) name value machine =
      .ok (some value) machine)
    (unwatched : mode ≠ .fresh → ownWatch mode name machine.interpreter = []) :
    setVariable run name value mode machine =
      .ok (some value) (storing mode name value machine) := by
  have notEmpty : name.isEmpty = false := by simpa using named
  by_cases isFresh : mode = .fresh
  · subst isFresh
    rw [setVariable]
    simp only [notEmpty, Bool.false_eq_true, if_false, interpreter_bind_apply]
    rfl
  · rw [storedIn, if_neg isFresh] at inside
    have stored : store (owner mode name machine.interpreter) name value machine =
        .ok (some value) (storing mode name value machine) := by
      rw [store, bind_of_ok approved, storing, storedIn, storedEntry, if_neg isFresh,
        if_neg isFresh]
      rfl
    have noWatch := unwatched isFresh
    rw [ownWatch] at noWatch
    rw [setVariable_apply run notEmpty value isFresh, bind_of_ok stored]
    cases known : Composed.assigned? mode name machine.interpreter with
    | none => rfl
    | some found =>
        simp only [known, Option.map_some, Option.getD_some] at noWatch
        have isOwner : owner mode name machine.interpreter = found.1 := by
          rw [owner, known]
          rfl
        have isStored : storedIn mode name machine.interpreter = found.1 := by
          rw [storedIn, if_neg isFresh, isOwner]
        have held : ((storing mode name value machine).interpreter.frame found.1).bindings.get?
            name = some (storedEntry mode name value machine.interpreter) := by
          rw [storing, isStored, machine.interpreter.get?_putVariable (isOwner ▸ inside),
            if_pos rfl]
        have unwatchedRun : runWatch run found.1 [] (storing mode name value machine) =
            .ok () (storing mode name value machine) := rfl
        simp only [afterStoring, noWatch]
        rw [bind_of_ok unwatchedRun]
        simp [held]

/-- Without a watch and a host that listens, an assignment only stores its value. -/
theorem setVariable_of_unwatched
    (run : Run σ)
    {name : Text}
    (named : name ≠ [])
    (value : Text)
    {mode : Mode}
    {machine : Machine σ}
    (inside : storedIn mode name machine.interpreter < machine.interpreter.frames.size)
    (unheard : machine.interpreter.callbacks.setVariable = none)
    (unwatched : mode ≠ .fresh → ownWatch mode name machine.interpreter = []) :
    setVariable run name value mode machine =
      .ok (some value) (storing mode name value machine) :=
  setVariable_of_approved run named value inside (approve_of_unheard _ name value unheard)
    unwatched

/--
The machine behind an assignment that nothing watches; an assignment to the empty name does nothing.
-/
def storingNamed (mode : Mode) (name value : Text) (machine : Machine σ) : Machine σ :=
  if name = [] then machine else storing mode name value machine

theorem storedIn_lt_of_framed
    (mode : Mode)
    (name : Text)
    {interpreter : Interpreter σ}
    (framed : interpreter.WellFramed) :
    storedIn mode name interpreter < interpreter.frames.size := by
  rcases storedIn_root_or_current mode name interpreter with atRoot | here
  · rw [atRoot]
    exact framed.rooted
  · rw [here]
    exact framed.current

/-- Without a watch and a host that listens, an assignment only stores its value. -/
theorem setVariable_eq_storingNamed
    (run : Run σ)
    (name value : Text)
    {mode : Mode}
    {machine : Machine σ}
    (framed : machine.interpreter.WellFramed)
    (unheard : machine.interpreter.callbacks.setVariable = none)
    (unwatched : ownWatch mode name machine.interpreter = []) :
    ∃ stored, setVariable run name value mode machine =
      .ok stored (storingNamed mode name value machine) := by
  rw [storingNamed]
  split
  case isTrue nameless =>
    subst nameless
    exact ⟨none, rfl⟩
  case isFalse named =>
    exact ⟨_, setVariable_of_unwatched run named value (storedIn_lt_of_framed mode name framed)
      unheard fun _ => unwatched⟩

/-- An assignment changes the variable of its name in the frame where it stores, and no other. -/
theorem get?_storingNamed
    (mode : Mode)
    (name value : Text)
    {machine : Machine σ}
    (framed : machine.interpreter.WellFramed)
    (id : FrameId)
    (other : Text) :
    ((storingNamed mode name value machine).interpreter.frame id).bindings.get? other =
      if name ≠ [] ∧ id = storedIn mode name machine.interpreter ∧ other = name then
        some (storedEntry mode name value machine.interpreter)
      else (machine.interpreter.frame id).bindings.get? other := by
  rw [storingNamed]
  by_cases nameless : name = []
  · simp [nameless]
  · rw [if_neg nameless, storing, Interpreter.putVariable, Interpreter.frame_updateFrame]
    by_cases here : storedIn mode name machine.interpreter = id
    · have inside : id < machine.interpreter.frames.size :=
        here ▸ storedIn_lt_of_framed mode name framed
      simp [here, inside, nameless, Table.get?_insert]
    · simp [here, Ne.symm here]

/-- Assignments store where the value is seen, if a global variable is not hidden by a local one. -/
theorem shows_storedIn
    {mode : Mode}
    {name : Text}
    {interpreter : Interpreter σ}
    (unhidden : mode = .global → interpreter.current = rootFrame ∨
      interpreter.currentFrame.bindings.get? name = none) :
    interpreter.Shows name (storedIn mode name interpreter) := by
  cases mode with
  | fresh => exact .inl rfl
  | own =>
      refine .inl ?_
      cases known : (interpreter.frame interpreter.current).bindings.get? name <;>
        simp [storedIn, owner, Composed.assigned?, Composed.assignedFrame, known]
  | visible =>
      rw [storedIn_visible, Interpreter.visible?, Interpreter.lookup?]
      cases known : (interpreter.frame interpreter.current).bindings.get? name with
      | some found => exact .inl rfl
      | none =>
          cases (interpreter.frame rootFrame).bindings.get? name with
          | some found => exact .inr ⟨rfl, known⟩
          | none => exact .inl rfl
  | global =>
      have atRoot : storedIn .global name interpreter = rootFrame := by
        cases known : (interpreter.frame rootFrame).bindings.get? name <;>
          simp [storedIn, owner, Composed.assigned?, Composed.assignedFrame,
            Interpreter.lookup?, known]
      rw [atRoot]
      rcases unhidden rfl with here | missing
      · exact .inl here.symm
      · exact .inr ⟨rfl, missing⟩

/-! ## The code behind a dollar -/

/-- A machine on which names behind a dollar are read by the built-in command. -/
structure ReadsVariables (machine : Machine σ) : Prop where
  framed : machine.interpreter.WellFramed
  expands : machine.interpreter.dollar = Text.ofString "set "
  means : isBuiltin machine.interpreter (Builtin.name .setVariable) .setVariable = true
  unasked : machine.interpreter.callbacks.getVariable = none
  unheard : machine.interpreter.callbacks.setVariable = none
  within : machine.interpreter.depth < machine.interpreter.limits.evaluations
  unfailed : opening machine = none
  uncancelled : machine.interpreter.context = .running → machine.world.cancellation = none

/-- Storing a value leaves everything that reading variables needs. -/
theorem ReadsVariables.storing
    {machine : Machine σ}
    (reads : ReadsVariables machine)
    (mode : Mode)
    (name value : Text) :
    ReadsVariables (Eval.storing mode name value machine) where
  framed := reads.framed.of_sameParents (.putVariable machine.interpreter _ name _) rfl rfl
  expands := reads.expands
  means := reads.means
  unasked := reads.unasked
  unheard := reads.unheard
  within := reads.within
  unfailed := reads.unfailed
  uncancelled := reads.uncancelled

/-- With one argument the command reads a variable, unless the argument directs it to the root. -/
theorem setVariable_single
    (run : Run σ)
    (name : Text)
    {machine : Machine σ}
    (unasked : machine.interpreter.callbacks.getVariable = none) :
    Command.setVariable run [name] machine =
      .ok (.value (if name = Command.globalWord then [] else machine.interpreter.valueOf name))
        machine := by
  by_cases directed : name = Command.globalWord
  · simp [Command.setVariable, Command.setPairs, directed]
  · simp only [Command.setVariable, Command.setPairs, beq_iff_eq, directed, if_false]
    rw [bind_of_ok (getVariable_apply name unasked)]
    rfl

/-- Called with one argument, the command records no error. -/
theorem dispatch_single
    (run : Run σ)
    (rounds : Nat)
    (name : Text)
    (machine : Machine σ)
    (means : isBuiltin machine.interpreter (Builtin.name .setVariable) .setVariable = true)
    (unasked : machine.interpreter.callbacks.getVariable = none) :
    ∃ after, dispatch run rounds [Builtin.name .setVariable, name] machine =
        .ok (if name = Command.globalWord then [] else machine.interpreter.valueOf name) after ∧
      after.interpreter.error = machine.interpreter.error := by
  have settled : ∀ value, ∃ after, settle (.value value) machine = .ok value after ∧
      after.interpreter.error = machine.interpreter.error := fun value => ⟨_, rfl, rfl⟩
  rw [dispatch_of_isBuiltin run rounds [name] means, callBuiltin,
    bind_of_ok (setVariable_single run name unasked)]
  exact settled _

/-- Without an error of an outer evaluation a command is called without one. -/
theorem calledOn_eq
    (code : Text)
    {machine : Machine σ}
    (unfailed : opening machine = none) :
    ∃ source, calledOn code false machine =
      { machine with interpreter := { machine.interpreter with
        source, active := 0 :: machine.interpreter.active, error := none } } := by
  rw [opening] at unfailed
  rw [calledOn, prepared]
  cases idle : machine.interpreter.active.isEmpty with
  | true => exact ⟨_, rfl⟩
  | false =>
      refine ⟨machine.interpreter.source, ?_⟩
      rw [idle, if_neg Bool.false_ne_true] at unfailed
      rw [← unfailed]
      simp [entered, marked, idle]

/-- What a dollar makes of a name reads the variable. -/
theorem evaluate_named
    {machine : Machine σ}
    (reads : ReadsVariables machine)
    (fuel : Nat)
    (name : Text) :
    ∃ after, evaluate (fuel + 1) (machine.interpreter.dollar ++ ListText.write [name]) false
        machine =
          .ok (if name = Command.globalWord then [] else machine.interpreter.valueOf name) after ∧
      after.interpreter.error = none := by
  have asList : machine.interpreter.dollar ++ ListText.write [name] =
      ListText.write [Builtin.name .setVariable, name] := by
    have word : ListText.writeWord (Builtin.name .setVariable) ++ [Byte.space] =
        Text.ofString "set " := by
      decide
    rw [reads.expands, ListText.write_cons_cons, ← word]
    simp
  obtain ⟨source, started⟩ := calledOn_eq (ListText.write [Builtin.name .setVariable, name])
    reads.unfailed
  obtain ⟨ended, read, noError⟩ := dispatch_single (evaluate fuel) fuel name
    { machine with interpreter := { machine.interpreter with
      source, active := 0 :: machine.interpreter.active, error := none } }
    reads.means reads.unasked
  obtain ⟨world, reported⟩ := reportError_apply ended
  rw [asList, evaluate, script_written (evaluate fuel) fuel (Builtin.name .setVariable) [name] false
    reads.within reads.unfailed reads.uncancelled, started, ensuring, bind_of_ok read,
    bind_of_ok reported]
  exact ⟨_, rfl, noError⟩

/-- A name in braces behind a dollar is read as the value of its variable. -/
theorem word_named
    (reader : Reader)
    {machine : Machine σ}
    (reads : ReadsVariables machine)
    (fuel : Nat)
    {name : Text}
    (balanced : Source.Balanced Byte.openBrace Byte.closeBrace name)
    {rest : Text}
    (ends : ∀ offset, endsWord ⟨rest, offset⟩ = true)
    (depth bound offset : Nat)
    (deep : (Byte.dollar :: inBraces name).length ≤ depth) :
    ∃ after, word reader (evaluate (fuel + 1)) depth (bound + 1)
        ⟨(Byte.dollar :: inBraces name) ++ rest, offset⟩ [] machine =
          .ok (some (if name = Command.globalWord then [] else machine.interpreter.valueOf name,
            ⟨rest, offset + (Byte.dollar :: inBraces name).length⟩)) after ∧
      after.interpreter.error = none := by
  obtain ⟨after, ran, noError⟩ := evaluate_named reads fuel name
  have yields : (Substitution.named name balanced).Yields (evaluate (fuel + 1)) machine _ after :=
    ⟨ran, noError⟩
  have read := Substitution.readsPart reader yields rest depth offset deep
  exact ⟨after, word_of_last bound [] read (by simp) (ends _), noError⟩

/--
What is assigned to a variable is read back, whatever bytes its name and its value hold and in
whatever mode it is assigned: by the host, and by a script that writes the name in braces behind a
dollar.  Braces in the name have to be balanced.  Under one name, the word that directs assignments
to the root frame, a script reads nothing.
-/
theorem variables_read_back
    (run : Run σ)
    {name : Text}
    (named : name ≠ [])
    (balanced : Source.Balanced Byte.openBrace Byte.closeBrace name)
    (value : Text)
    {mode : Mode}
    {machine : Machine σ}
    (reads : ReadsVariables machine)
    (unwatched : mode ≠ .fresh → ownWatch mode name machine.interpreter = [])
    (unhidden : mode = .global → machine.interpreter.current = rootFrame ∨
      machine.interpreter.currentFrame.bindings.get? name = none) :
    ∃ stored, setVariable run name value mode machine = .ok (some value) stored ∧
      getVariable name stored = .ok value stored ∧
      ∀ (reader : Reader) (fuel : Nat) (rest : Text),
        (∀ offset, endsWord ⟨rest, offset⟩ = true) →
        ∀ depth bound offset, (Byte.dollar :: inBraces name).length ≤ depth →
          ∃ after, word reader (evaluate (fuel + 1)) depth (bound + 1)
              ⟨(Byte.dollar :: inBraces name) ++ rest, offset⟩ [] stored =
                .ok (some (if name = Command.globalWord then [] else value,
                  ⟨rest, offset + (Byte.dollar :: inBraces name).length⟩)) after ∧
            after.interpreter.error = none := by
  have inside := storedIn_lt_of_framed mode name reads.framed
  have readsAfter := reads.storing mode name value
  have holds : (storing mode name value machine).interpreter.valueOf name = value := by
    have seen := Interpreter.visible?_putVariable inside (shows_storedIn unhidden)
      (storedEntry mode name value machine.interpreter)
    rw [Interpreter.valueOf, storing, seen]
    exact storedEntry_value mode name value machine.interpreter
  refine ⟨_, setVariable_of_unwatched run named value inside reads.unheard unwatched, ?_, ?_⟩
  · rw [getVariable_apply name readsAfter.unasked, holds]
  · intro reader fuel rest ends depth bound offset deep
    have read := word_named reader readsAfter fuel balanced ends depth bound offset deep
    rwa [holds] at read

/-- A new machine without callbacks reads variables. -/
theorem readsVariables_start :
    ReadsVariables (Machine.start () {} {}) where
  framed := by
    have configured : ({} : Configuration).interpreter ({} : Callbacks Unit) =
        .ok (.fresh {} {}) := rfl
    exact Configuration.wellFramed configured
  expands := by decide +kernel
  means := by decide +kernel
  unasked := by rfl
  unheard := by rfl
  within := by decide +kernel
  unfailed := by decide +kernel
  uncancelled := fun _ => rfl

/-- A name with a space, marks and a byte that is no character. -/
def awkwardName : Text :=
  [0x61, Byte.space, Byte.dollar, Byte.semicolon, Byte.openBracket, Byte.doubleQuote, 0xff]

/-- Under an awkward name a global variable with an unbalanced value is read back. -/
theorem variables_read_back_awkward :
    ∃ stored, setVariable runCode awkwardName [Byte.closeBrace, Byte.hash] .global
        (Machine.start () {} {}) = .ok (some [Byte.closeBrace, Byte.hash]) stored ∧
      ∃ after, word ⟨true, false⟩ (evaluate 9) 64 64 ⟨Byte.dollar :: inBraces awkwardName, 0⟩ []
          stored = .ok (some ([Byte.closeBrace, Byte.hash], ⟨[], 10⟩)) after := by
  have named : awkwardName ≠ [] := by decide
  have unwatched : Mode.global ≠ .fresh →
      ownWatch .global awkwardName (Machine.start () {} {}).interpreter = [] := by
    decide +kernel
  obtain ⟨stored, assigned, -, read⟩ := variables_read_back runCode named
    (.of_unmarked (by decide +kernel)) [Byte.closeBrace, Byte.hash] readsVariables_start unwatched
    fun _ => .inl rfl
  obtain ⟨after, reads, -⟩ := read ⟨true, false⟩ 8 [] (by simp) 64 63 0 (by decide)
  exact ⟨stored, assigned, after, reads⟩

/-- A function with a parameter `global`, and a call of it. -/
def globalParameter : Text :=
  Text.ofString "func f \x7bglobal\x7d \x7bquote x$\x7bglobal\x7d\x7d;f 5"

/--
A variable `global` is assigned and the host reads it back, but a script reads nothing in its place,
also where it is the parameter of a function.
-/
theorem global_is_not_read_back :
    unfailed? (setVariable runCode Command.globalWord [0x35] .visible >>= fun _ =>
        getVariable Command.globalWord) (Machine.start () {} {}) = some [0x35] ∧
      unfailed? (setVariable runCode Command.globalWord [0x35] .visible >>= fun _ =>
        evaluate 2 (Text.ofString "quote x$\x7bglobal\x7d") true) (Machine.start () {} {}) =
          some (Text.ofString "x") ∧
      unfailed? (evaluate 4 globalParameter true) (Machine.start () {} {}) =
        some (Text.ofString "x") :=
  ⟨by decide +kernel, by decide +kernel, by decide +kernel⟩

end Eval

end LittleScript
