import LittleScript.Proofs.Dispatching
import LittleScript.Proofs.Itineraries

namespace LittleScript.Eval

/-!
# Comparing evaluations

An evaluation whose built-in commands are called in another way is compared with a plain one, part
by part: what is alike stays alike when it is followed by what is alike, and when it runs as a
script.  So whatever is meant by alike, all code runs alike as soon as the built-in commands do and
what reads and surrounds commands does.
-/

open Source (Cursor)

variable {σ α : Type}

/-! ## Calling a command whose words are read -/

/-- Call a command once its words are read, and move on to the next one. -/
def callRead (call : List Text → Eval σ Text) (reader : Reader) (command : List Text)
    (after : Cursor) : Eval σ (Text × Option Cursor) := do
  if ← hasError then return ([], none)
  let value ← if command.isEmpty then pure [] else call command
  if ← isStopping then return (value, none)
  return (value, some (← nextCommand reader after))

/-- A command is called on the machine that reading its words has left. -/
theorem callRead_congr
    {call other : List Text → Eval σ Text}
    (reader : Reader)
    {command : List Text}
    (after : Cursor)
    {machine : Machine σ}
    (same : call command machine = other command machine) :
    callRead call reader command after machine = callRead other reader command after machine := by
  simp only [callRead]
  refine bind_congr_of_ok fun failed between looked => ?_
  cases looked
  split
  · rfl
  · split
    · rfl
    · exact bind_congr_first same

/-- Move on to the next command behind one that was called, unless its frame is being left. -/
def moveOn (reader : Reader) (after : Cursor) (value : Text) : Eval σ (Text × Option Cursor) := do
  if ← isStopping then return (value, none)
  return (value, some (← nextCommand reader after))

theorem moveOn_assembled
    {realm : Realm σ}
    (reader : Reader)
    (after : Cursor)
    (value : Text) :
    Assembled realm fun _ => moveOn reader after value := by
  refine .ifStopping fun stopping => ?_
  split
  · exact .pure _
  · exact .bind (.nextCommand ..) fun _ => .pure _

theorem callRead_assembled
    {scope : Scope σ}
    (rounds : Nat)
    (reader : Reader)
    (command : List Text)
    (after : Cursor) :
    Assembled scope.toRealm fun run => callRead (dispatch run rounds) reader command after := by
  refine .consult _ (fun _ _ _ => rfl) fun _ _ => ?_
  split
  · exact .pure _
  · split
    · exact .bind (.pure _) (moveOn_assembled reader after)
    · exact .bind (.dispatch ..) (moveOn_assembled reader after)

/-- Go on with the next command behind one that was called, if there is one. -/
def goOn (others : Cursor → Text → Eval σ Text) : Text × Option Cursor → Eval σ Text
  | (value, none) => return value
  | (value, some next) => others next value

/-! ## Other built-in commands -/

/-- A way to call built-in commands. -/
abbrev Builtins (σ : Type) := Run σ → Nat → Builtin → List Text → Eval σ Reply

/-- Call commands like scripts do, the built-in ones in a way of their own. -/
def dispatchWith (builtins : Builtins σ) : Dispatcher σ := fun run rounds command => do
  let name := command.headD []
  let arguments := command.tail
  let interpreter ← interpreter
  match interpreter.commands.get? name with
  | some id =>
      match interpreter.function? id with
      | some ⟨_, .builtin builtin⟩ => settle (← builtins run rounds builtin arguments)
      | some ⟨_, .host action⟩ => settle (← perform run (action arguments))
      | some ⟨currentName, .script parameters body⟩ =>
          callScript run id currentName parameters body arguments
      | none => return []
  | none =>
      if name.isEmpty then return []
      if interpreter.catcher.isEmpty then
        raise (.unknownCommand name)
        return []
      callCatcher run command

/-- Run a body as the innermost evaluation of a script. -/
def asScript (code : Text) (body : Eval σ Text) : Eval σ Text :=
  fun machine => ensuring body (left machine) (entered code machine)

/-! ## Comparisons -/

/--
What it means in a realm that one action ends like another, plain one, and why it may be shown part
by part.  The first action starts on a machine with the same interpreter as the second.  Apart from
the commands, actions are put together from the parts that another realm allows; they are alike if
nested code is.
-/
structure Comparison (realm : Realm σ) where
  alike : {α : Type} → Eval σ α → Eval σ α → Machine σ → Prop
  part : Realm σ
  drops : part.drops
  of_eq : ∀ {α : Type} {other plain likeOther likePlain : Eval σ α} {machine : Machine σ},
    alike likeOther likePlain machine →
    (∀ start : Machine σ, start.interpreter = machine.interpreter →
      other start = likeOther start) →
    plain machine = likePlain machine →
    alike other plain machine
  exhausted : ∀ {α : Type} {machine : Machine σ}, realm.holds machine.interpreter →
    alike (throw .exhausted : Eval σ α) (throw .exhausted) machine
  bind : ∀ {α β : Type} {other plain : Eval σ α} {otherNext next : α → Eval σ β}
    {machine : Machine σ},
    realm.holds machine.interpreter →
    alike other plain machine →
    (∀ value between, plain machine = .ok value between → realm.holds between.interpreter →
      alike (otherNext value) (next value) between) →
    alike (other >>= otherNext) (plain >>= next) machine
  script : ∀ {other plain : Eval σ Text} (code : Text) {machine : Machine σ},
    realm.holds machine.interpreter →
    (realm.holds (entered code machine).interpreter →
      alike other plain (entered code machine)) →
    alike (asScript code other) (asScript code plain) machine
  assembled : ∀ {fuel : Nat} {other : Run σ},
    (∀ code ownResult machine, realm.holds machine.interpreter →
      alike (other code ownResult) (evaluate fuel code ownResult) machine) →
    ∀ {α : Type} {action : Run σ → Eval σ α}, Assembled part action →
    ∀ {machine}, realm.holds machine.interpreter →
      alike (action other) (action (evaluate fuel)) machine

namespace Comparison

variable {realm : Realm σ} (comparison : Comparison realm)

/-- Nested code is run alike wherever the realm holds. -/
def Runs (other run : Run σ) : Prop :=
  ∀ code ownResult machine, realm.holds machine.interpreter →
    comparison.alike (other code ownResult) (run code ownResult) machine

variable {fuel : Nat} {other : Run σ} {machine : Machine σ}

/-- Commands are called alike if the built-in ones and those of the host are. -/
theorem dispatchWith
    {builtins : Builtins σ}
    (runs : comparison.Runs other (evaluate fuel))
    (held : realm.holds machine.interpreter)
    (calls : ∀ {name id title command} (arguments : List Text),
      machine.interpreter.commands.get? name = some id →
      machine.interpreter.function? id = some ⟨title, .builtin command⟩ →
      comparison.alike (builtins other fuel command arguments)
        (callBuiltin (evaluate fuel) fuel command arguments) machine)
    (performs : ∀ {name id title action} (arguments : List Text),
      machine.interpreter.commands.get? name = some id →
      machine.interpreter.function? id = some ⟨title, .host action⟩ →
      comparison.alike (perform other (action arguments))
        (perform (evaluate fuel) (action arguments)) machine)
    (command : List Text) :
    comparison.alike (Eval.dispatchWith builtins other fuel command)
      (dispatch (evaluate fuel) fuel command) machine := by
  cases known : machine.interpreter.commands.get? (command.headD []) with
  | none =>
      have goesOn : Assembled comparison.part fun run : Run σ =>
          if (command.headD []).isEmpty then pure []
          else if machine.interpreter.catcher.isEmpty then
            raise (.unknownCommand (command.headD [])) >>= fun _ => pure []
          else callCatcher run command := by
        split
        · exact .pure _
        · split
          · exact .bind (.raise _) fun _ => .pure _
          · exact .callCatcher command
      refine comparison.of_eq (comparison.assembled runs goesOn held) (fun start same => ?_) ?_
      · simp only [Eval.dispatchWith, interpreter_bind_apply, same, known]
      · simp only [dispatch, interpreter_bind_apply, known]
  | some id =>
      cases found : machine.interpreter.function? id with
      | none =>
          refine comparison.of_eq (comparison.assembled runs (.pure []) held)
            (fun start same => ?_) ?_
          · simp only [Eval.dispatchWith, interpreter_bind_apply, same, known, found]
          · simp only [dispatch, interpreter_bind_apply, known, found]
      | some function =>
          obtain ⟨name, definition⟩ := function
          cases definition with
          | host action =>
              have settled := comparison.bind held (performs command.tail known found)
                fun reply _ _ heldThere =>
                  comparison.assembled runs (.settle reply) heldThere
              refine comparison.of_eq settled (fun start same => ?_) ?_
              · simp only [Eval.dispatchWith, interpreter_bind_apply, same, known, found]
              · simp only [dispatch, interpreter_bind_apply, known, found]
          | script parameters body =>
              have calls := comparison.assembled runs
                (.callScript id name parameters body command.tail) held
              refine comparison.of_eq calls (fun start same => ?_) ?_
              · simp only [Eval.dispatchWith, interpreter_bind_apply, same, known, found]
              · simp only [dispatch, interpreter_bind_apply, known, found]
          | builtin builtin =>
              have settled := comparison.bind held
                (calls command.tail known found)
                fun reply _ _ heldThere =>
                  comparison.assembled runs (.settle reply) heldThere
              refine comparison.of_eq settled (fun start same => ?_) ?_
              · simp only [Eval.dispatchWith, interpreter_bind_apply, same, known, found]
              · simp only [dispatch, interpreter_bind_apply, known, found]

/-- Commands are called, and nested code is run, alike wherever the realm holds. -/
structure Calls (call : List Text → Eval σ Text) (other : Run σ) (fuel : Nat) : Prop where
  runs : comparison.Runs other (evaluate fuel)
  calls : ∀ command machine, realm.holds machine.interpreter →
    comparison.alike (call command) (dispatch (evaluate fuel) fuel command) machine

variable {call : List Text → Eval σ Text}

theorem callRead
    (alike : comparison.Calls call other fuel)
    (reader : Reader)
    (command : List Text)
    (after : Cursor)
    (held : realm.holds machine.interpreter) :
    comparison.alike (Eval.callRead call reader command after)
      (Eval.callRead (dispatch (evaluate fuel) fuel) reader command after) machine := by
  cases pending : machine.interpreter.error.isSome with
  | true =>
      refine comparison.of_eq (comparison.assembled alike.runs (.pure ([], none)) held)
        (fun start same => ?_) ?_
      · simp only [Eval.callRead, hasError_bind_apply, same, pending, if_true]
      · simp only [Eval.callRead, hasError_bind_apply, pending, if_true]
  | false =>
      cases empty : command.isEmpty with
      | true =>
          refine comparison.of_eq
            (comparison.assembled alike.runs (moveOn_assembled reader after []) held)
            (fun start same => ?_) ?_
          · simp only [Eval.callRead, hasError_bind_apply, same, pending, empty,
              Bool.false_eq_true, if_true, if_false]
            rfl
          · simp only [Eval.callRead, hasError_bind_apply, pending, empty, Bool.false_eq_true,
              if_true, if_false]
            rfl
      | false =>
          have called := comparison.bind held (alike.calls command machine held)
            fun value _ _ heldThere =>
              comparison.assembled alike.runs (moveOn_assembled reader after value) heldThere
          refine comparison.of_eq called (fun start same => ?_) ?_
          · simp only [Eval.callRead, hasError_bind_apply, same, pending, empty,
              Bool.false_eq_true, if_false]
            rfl
          · simp only [Eval.callRead, hasError_bind_apply, pending, empty, Bool.false_eq_true,
              if_false]
            rfl

theorem commandAtVia
    (alike : comparison.Calls call other fuel)
    (bound : Nat)
    (reader : Reader)
    (cursor : Cursor)
    (held : realm.holds machine.interpreter) :
    comparison.alike (Eval.commandAtVia call other bound reader cursor)
      (commandAt (evaluate fuel) fuel bound reader cursor) machine := by
  have marks : Assembled comparison.part fun _ : Run σ => markCommand cursor.offset :=
    .step (.mark _)
  refine comparison.bind held (comparison.assembled alike.runs marks held) fun _ _ _ held => ?_
  refine comparison.bind held (comparison.assembled alike.runs .cancellation held)
    fun cause _ _ held => ?_
  cases cause with
  | some cause =>
      have raises : Assembled comparison.part fun _ : Run σ =>
          raise (.cancelled cause) >>= fun _ => pure (([] : Text), (none : Option Cursor)) :=
        .bind (.raise _) fun _ => .pure _
      exact comparison.assembled alike.runs raises held
  | none =>
      refine comparison.bind held
        (comparison.assembled alike.runs (.words reader bound cursor) held) fun read _ _ held => ?_
      cases read with
      | none => exact comparison.assembled alike.runs (.pure _) held
      | some read => exact comparison.callRead alike reader read.1 read.2 held

theorem commandsVia
    (alike : comparison.Calls call other fuel)
    (reader : Reader)
    (depth bound : Nat) :
    ∀ (cursor : Cursor) (last : Text) {machine : Machine σ}, realm.holds machine.interpreter →
      comparison.alike (Eval.commandsVia call other reader depth bound cursor last)
        (commands (evaluate fuel) fuel reader depth bound cursor last) machine := by
  induction bound with
  | zero =>
      exact fun _ last _ held => comparison.assembled alike.runs (.pure last) held
  | succ bound inductionHypothesis =>
      intro cursor last machine held
      cases done : cursor.isDone || machine.interpreter.error.isSome with
      | true =>
          refine comparison.of_eq (comparison.assembled alike.runs (.pure last) held)
            (fun start same => ?_) ?_
          · simp only [Eval.commandsVia, hasError_bind_apply, same, done, if_true]
          · simp only [commands, hasError_bind_apply, done, if_true]
      | false =>
          have goes : comparison.alike
              (Eval.commandAtVia call other depth reader cursor >>=
                goOn (Eval.commandsVia call other reader depth bound))
              (commandAt (evaluate fuel) fuel depth reader cursor >>=
                goOn (commands (evaluate fuel) fuel reader depth bound)) machine := by
            refine comparison.bind held (comparison.commandAtVia alike depth reader cursor held)
              fun ran _ _ held => ?_
            obtain ⟨value, next⟩ := ran
            cases next with
            | none => exact comparison.assembled alike.runs (.pure value) held
            | some next => exact inductionHypothesis next value held
          refine comparison.of_eq goes (fun start same => ?_) ?_
          · simp only [Eval.commandsVia, hasError_bind_apply, same, done, Bool.false_eq_true,
              if_false]
            rfl
          · simp only [commands, hasError_bind_apply, done, Bool.false_eq_true, if_false]
            rfl

theorem scriptVia
    (alike : comparison.Calls call other fuel)
    (code : Text)
    (ownResult : Bool)
    (held : realm.holds machine.interpreter) :
    comparison.alike (Eval.scriptVia call other code ownResult)
      (Eval.script (evaluate fuel) fuel code ownResult) machine := by
  have body : realm.holds (entered code machine).interpreter →
      comparison.alike
        (scriptBodyVia call other code ownResult machine.interpreter.active.isEmpty)
        (scriptBodyVia (dispatch (evaluate fuel) fuel) (evaluate fuel) code ownResult
          machine.interpreter.active.isEmpty) (entered code machine) := by
    intro held
    refine comparison.bind held (comparison.assembled alike.runs .guardDepth held)
      fun _ _ _ held => ?_
    refine comparison.bind held (comparison.assembled alike.runs
      (.prepare ownResult _ fun _ => comparison.drops) held) fun _ _ _ held => ?_
    refine comparison.bind held (comparison.assembled alike.runs (.skipBlanks ..) held)
      fun first _ _ held => ?_
    rw [commandsVia_dispatch]
    refine comparison.bind held (comparison.commandsVia alike _ _ _ _ _ held)
      fun value _ _ held => ?_
    refine comparison.bind held (comparison.assembled alike.runs .reportError held)
      fun _ _ _ held => ?_
    exact comparison.assembled alike.runs (.settleValue ownResult value) held
  refine comparison.of_eq (comparison.script code held body) (fun start same => ?_) ?_
  · rw [Eval.scriptVia, same, asScript]
  · rw [← scriptVia_dispatch, Eval.scriptVia, asScript]

/-- All code runs alike if the commands are called alike, granted that nested code is. -/
theorem evaluateVia
    {dispatcher : Dispatcher σ}
    (calls : ∀ (other : Run σ) (fuel : Nat), comparison.Runs other (evaluate fuel) →
      ∀ command machine, realm.holds machine.interpreter →
        comparison.alike (dispatcher other fuel command)
          (dispatch (evaluate fuel) fuel command) machine)
    (fuel : Nat) :
    comparison.Runs (Eval.evaluateVia dispatcher fuel) (evaluate fuel) := by
  induction fuel with
  | zero =>
      exact fun _ _ _ held => comparison.exhausted held
  | succ fuel inductionHypothesis =>
      intro code ownResult machine held
      exact comparison.scriptVia ⟨inductionHypothesis, calls _ fuel inductionHypothesis⟩ code
        ownResult held

/-- Without host commands all code runs alike if the built-in commands are called alike. -/
theorem evaluateVia_dispatchWith
    {scope : Scope σ}
    (comparison : Comparison scope.toRealm)
    {builtins : Builtins σ}
    (calls : ∀ (other : Run σ) (fuel : Nat), comparison.Runs other (evaluate fuel) →
      ∀ command arguments machine, scope.holds machine.interpreter → scope.allowed command →
        comparison.alike (builtins other fuel command arguments)
          (callBuiltin (evaluate fuel) fuel command arguments) machine)
    (fuel : Nat) :
    comparison.Runs (Eval.evaluateVia (Eval.dispatchWith builtins) fuel) (evaluate fuel) := by
  refine comparison.evaluateVia (fun other fuel runs command machine held => ?_) fuel
  refine comparison.dispatchWith runs held (fun arguments known found => ?_)
    (fun arguments known found => ?_) command
  · exact calls other fuel runs _ arguments machine held (scope.offers held known found)
  · exact absurd rfl ((scope.free held).of_get? known found _)

end Comparison

end LittleScript.Eval
