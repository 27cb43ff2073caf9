import LittleScript.Proofs.ControlState
import LittleScript.Proofs.Tables

namespace LittleScript

/-!
# What scripts make of the table of commands

Scripts define functions, and rename and delete commands.  Whatever they run, the commands of their
interpreter change by such operations only.  On an interpreter whose host has registered nothing,
these keep every command under its own name, and every built-in one in the place where it was
registered.
-/

variable {σ : Type}

/-- What a script does to the commands of its interpreter. -/
inductive Operation where
  | define (name : Text) (parameters : List Text) (body : Text)
  | rename (old new : Text)

namespace Interpreter

/-- An interpreter after an operation; an unknown command is not renamed. -/
def operate (interpreter : Interpreter σ) : Operation → Interpreter σ
  | .define name parameters body => interpreter.define name (.script parameters body)
  | .rename old new => (interpreter.rename old new).toOption.getD interpreter

/-- Operations do not exchange the callbacks of the host. -/
theorem callbacks_foldl_operate
    (operations : List Operation)
    (interpreter : Interpreter σ) :
    (operations.foldl operate interpreter).callbacks = interpreter.callbacks := by
  induction operations generalizing interpreter with
  | nil =>
      rfl
  | cons operation rest inductionHypothesis =>
      rw [List.foldl_cons, inductionHypothesis]
      cases operation with
      | define name parameters body =>
          rfl
      | rename old new =>
          obtain ⟨functions, commands, renamed⟩ := interpreter.rename_getD_eq old new
          rw [operate, renamed]

/-- Two interpreters have the same commands. -/
structure SameCommands (first second : Interpreter σ) : Prop where
  functions : first.functions = second.functions
  commands : first.commands = second.commands
  system : first.system = second.system

/-- The commands of an interpreter come from those of another one by operations of scripts. -/
def Operated (before after : Interpreter σ) : Prop :=
  ∃ operations : List Operation, (operations.foldl operate before).SameCommands after

/-! ## Evaluations operate -/

namespace SameCommands

variable {first second third : Interpreter σ}

/-- Interpreters that are alike in their commands to a third one are alike. -/
theorem trans
    (same : first.SameCommands second)
    (sameThere : second.SameCommands third) :
    first.SameCommands third :=
  ⟨same.functions.trans sameThere.functions, same.commands.trans sameThere.commands,
    same.system.trans sameThere.system⟩

/-- The same operation does the same to the same commands. -/
theorem operate
    (same : first.SameCommands second)
    (operation : Operation) :
    (first.operate operation).SameCommands (second.operate operation) := by
  cases operation with
  | define name parameters body =>
      constructor <;> simp only [Interpreter.operate, define, same.functions, same.commands,
        same.system]
  | rename old new =>
      simp only [Interpreter.operate, rename, same.commands]
      cases second.commands.get? old with
      | none =>
          exact same
      | some id =>
          cases new.isEmpty <;> constructor <;>
            simp only [Except.toOption, Option.getD_some, same.functions, same.system,
              Bool.false_eq_true, if_true, if_false]

/-- So do the same operations. -/
theorem foldl_operate
    (operations : List Operation) :
    ∀ {first second : Interpreter σ}, first.SameCommands second →
      (operations.foldl Interpreter.operate first).SameCommands
        (operations.foldl Interpreter.operate second) := by
  induction operations with
  | nil => exact fun same => same
  | cons operation rest inductionHypothesis =>
      exact fun same => inductionHypothesis (same.operate operation)

end SameCommands

namespace Operated

variable {before after : Interpreter σ}

/-- Nothing needs to be done for the commands that are there. -/
theorem of_same
    (same : before.SameCommands after) :
    before.Operated after :=
  ⟨[], same⟩

theorem trans
    {middle : Interpreter σ}
    (first : before.Operated middle)
    (second : middle.Operated after) :
    before.Operated after := by
  obtain ⟨early, same⟩ := first
  obtain ⟨late, sameThere⟩ := second
  refine ⟨early ++ late, ?_⟩
  rw [List.foldl_append]
  exact (same.foldl_operate late).trans sameThere

/-- What leaves the commands alone may come before and after. -/
theorem within
    {start middle : Interpreter σ}
    (operated : start.Operated middle)
    (enters : before.SameCommands start)
    (leaves : middle.SameCommands after) :
    before.Operated after :=
  (of_same enters).trans (operated.trans (of_same leaves))

end Operated

end Interpreter

namespace Eval

open LittleScript.Interpreter (Operated SameCommands)

/-- No step of an evaluation does more to the commands than an operation. -/
theorem Step.operated
    {reach : FrameId → Bool}
    {update : Interpreter σ → Interpreter σ}
    (step : Step reach update)
    (interpreter : Interpreter σ) :
    interpreter.Operated (update interpreter) := by
  cases step with
  | define name parameters body => exact ⟨[.define name parameters body], ⟨rfl, rfl, rfl⟩⟩
  | rename old new => exact ⟨[.rename old new], ⟨rfl, rfl, rfl⟩⟩
  | _ => exact .of_same ⟨rfl, rfl, rfl⟩

/-- For its commands, what a script does is a sequence of operations. -/
theorem operated_lasting :
    LastingScript (σ := σ) Operated Operated where
  refl _ := .of_same ⟨rfl, rfl, rfl⟩
  trans _ _ _ first second := first.trans second
  step := Step.operated
  error _ _ := .of_same ⟨rfl, rfl, rfl⟩
  inFrame _ _ _ _ inside := inside.within ⟨rfl, rfl, rfl⟩ ⟨rfl, rfl, rfl⟩
  inNewFrame _ _ _ inside := inside.within ⟨rfl, rfl, rfl⟩ ⟨rfl, rfl, rfl⟩
  runWatch _ _ _ inside := inside.within ⟨rfl, rfl, rfl⟩ ⟨rfl, rfl, rfl⟩
  inCatcher _ _ inside := inside.within ⟨rfl, rfl, rfl⟩ ⟨rfl, rfl, rfl⟩
  outerRefl _ := .of_same ⟨rfl, rfl, rfl⟩
  within _ _ operated := operated
  enclose _ _ _ inside := inside.within ⟨rfl, rfl, rfl⟩ ⟨rfl, rfl, rfl⟩

end Eval

/-! ## Commands that no host has registered -/

namespace Interpreter

/-- The definition of the command of a name. -/
def definition? (interpreter : Interpreter σ) (name : Text) : Option (Definition σ) :=
  (interpreter.command? name).map Function.definition

/-- Each command goes by the name it is under. -/
def WellNamed (interpreter : Interpreter σ) : Prop :=
  ∀ name id, interpreter.commands.get? name = some id →
    ∃ definition, interpreter.function? id = some ⟨name, definition⟩

/--
The commands of an interpreter whose host has registered none: each goes by the name it is under,
and a built-in one is where the system has it.
-/
structure Unregistered (interpreter : Interpreter σ) : Prop where
  ordered : interpreter.commands.Ordered
  named : interpreter.WellNamed
  own : ∀ {id title action}, interpreter.function? id ≠ some ⟨title, .host action⟩
  unmoved : ∀ {id title command},
    interpreter.function? id = some ⟨title, .builtin command⟩ →
    interpreter.system.get? command.name = some id
  known : ∀ {name id}, interpreter.system.get? name = some id →
    ∃ title command, command.name = name ∧
      interpreter.function? id = some ⟨title, .builtin command⟩

/-- Functions that are there stay when another one is defined. -/
theorem function?_define
    (interpreter : Interpreter σ)
    (name : Text)
    (definition : Definition σ)
    (id : FunctionId) :
    (interpreter.define name definition).function? id =
      if id = interpreter.functions.size then some ⟨name, definition⟩
      else interpreter.function? id := by
  simp only [function?, define, Array.getElem?_push]

/-- The name of a function that is defined means it, and all other names mean what they meant. -/
theorem get?_define
    (interpreter : Interpreter σ)
    (name : Text)
    (definition : Definition σ)
    (other : Text) :
    (interpreter.define name definition).commands.get? other =
      if other = name then some interpreter.functions.size
      else interpreter.commands.get? other :=
  Table.get?_insert interpreter.commands name other interpreter.functions.size

/-- The next function takes a place that is not taken. -/
theorem ne_size_of_function?
    {interpreter : Interpreter σ}
    {id : FunctionId}
    {function : Function σ}
    (found : interpreter.function? id = some function) :
    id ≠ interpreter.functions.size := by
  intro same
  rw [function?, same, Array.getElem?_size] at found
  cases found

/-- Defining a function gives its name a meaning and leaves all other names theirs. -/
theorem WellNamed.define
    {interpreter : Interpreter σ}
    (named : interpreter.WellNamed)
    (name : Text)
    (definition : Definition σ) :
    (interpreter.define name definition).WellNamed := by
  intro other id known
  rw [get?_define] at known
  rw [function?_define]
  split at known
  case isTrue same =>
    cases known
    exact ⟨definition, by rw [if_pos rfl, same]⟩
  case isFalse different =>
    obtain ⟨old, found⟩ := named other _ known
    exact ⟨old, by rw [if_neg (ne_size_of_function? found), found]⟩

/-- A definition changes what one name means. -/
theorem definition?_define
    {interpreter : Interpreter σ}
    (named : interpreter.WellNamed)
    (name : Text)
    (definition : Definition σ)
    (other : Text) :
    (interpreter.define name definition).definition? other =
      if other = name then some definition else interpreter.definition? other := by
  simp only [definition?, command?, get?_define]
  split
  case isTrue same =>
    simp [function?_define]
  case isFalse different =>
    cases known : interpreter.commands.get? other with
    | none => rfl
    | some id =>
        obtain ⟨old, found⟩ := named other _ known
        simp [function?_define, ne_size_of_function? found]

/-- An interpreter on which a function has been moved from one name to another. -/
def moved (interpreter : Interpreter σ) (id : FunctionId) (old new : Text) : Interpreter σ :=
  { interpreter with
    functions := interpreter.functions.modify id fun function => { function with name := new }
    commands := (interpreter.commands.erase old).insert new id }

/-- Only the function that is moved gets another name. -/
theorem function?_moved
    (interpreter : Interpreter σ)
    (id other : FunctionId)
    (old new : Text) :
    (interpreter.moved id old new).function? other =
      if id = other then
        (interpreter.function? other).map fun function => { function with name := new }
      else interpreter.function? other :=
  Array.getElem?_modify

/-- Moving a function does not change what functions do. -/
theorem function?_of_moved
    {interpreter : Interpreter σ}
    {id other : FunctionId}
    {old new title : Text}
    {definition : Definition σ}
    (found : (interpreter.moved id old new).function? other = some ⟨title, definition⟩) :
    ∃ before, interpreter.function? other = some ⟨before, definition⟩ := by
  rw [function?_moved] at found
  split at found
  · obtain ⟨function, wasFound, same⟩ := Option.map_eq_some_iff.mp found
    cases same
    exact ⟨function.name, wasFound⟩
  · exact ⟨title, found⟩

/-- Where each command goes by the name it is under, a function that is moved gets its new name. -/
theorem WellNamed.moved
    {interpreter : Interpreter σ}
    (named : interpreter.WellNamed)
    {id : FunctionId}
    {old : Text}
    (isOld : interpreter.commands.get? old = some id)
    (new : Text) :
    (interpreter.moved id old new).WellNamed := by
  obtain ⟨definition, isFunction⟩ := named _ _ isOld
  intro name other found
  simp only [Interpreter.moved, Table.get?_insert, Table.get?_erase] at found
  rw [function?_moved]
  split at found
  case isTrue same =>
    cases found
    exact ⟨definition, by rw [if_pos rfl, isFunction, Option.map_some, same]⟩
  case isFalse =>
    split at found
    case isTrue => cases found
    case isFalse different =>
      obtain ⟨itsDefinition, itsFunction⟩ := named _ _ found
      have apart : id ≠ other := by
        rintro rfl
        rw [isFunction] at itsFunction
        cases itsFunction
        exact different rfl
      exact ⟨itsDefinition, by rw [if_neg apart, itsFunction]⟩

/-- An interpreter that remembers its commands as the system's. -/
def asSystem (interpreter : Interpreter σ) : Interpreter σ :=
  { interpreter with system := interpreter.commands }

/-- What is remembered of the commands does not change them. -/
theorem definition?_asSystem
    (interpreter : Interpreter σ)
    (name : Text) :
    interpreter.asSystem.definition? name = interpreter.definition? name :=
  rfl

/-- A fresh interpreter has registered the built-in commands and remembers them. -/
theorem fresh_eq_asSystem
    (limits : Limits)
    (callbacks : Callbacks σ) :
    fresh limits callbacks =
      (Builtin.all.foldl (fun registered command =>
        registered.define command.name (.builtin command))
          ({ limits, callbacks } : Interpreter σ)).asSystem :=
  rfl

namespace Unregistered

variable {interpreter : Interpreter σ}

/-- An interpreter whose host has registered no command is free of host commands. -/
theorem hostFree
    (unregistered : interpreter.Unregistered) :
    interpreter.HostFree := by
  rintro entry _ ⟨title, definition⟩ found action rfl
  exact unregistered.own found

/-- What is unregistered is a matter of the commands alone. -/
theorem of_same
    {other : Interpreter σ}
    (unregistered : interpreter.Unregistered)
    (same : interpreter.SameCommands other) :
    other.Unregistered := by
  have sameFunction : ∀ id, other.function? id = interpreter.function? id := fun id => by
    rw [function?, function?, same.functions]
  constructor
  · rw [← same.commands]
    exact unregistered.ordered
  · intro name id found
    rw [← same.commands] at found
    rw [sameFunction]
    exact unregistered.named name id found
  · intro id title action
    rw [sameFunction]
    exact unregistered.own
  · intro id title command found
    rw [sameFunction] at found
    rw [← same.system]
    exact unregistered.unmoved found
  · intro name id registered
    rw [← same.system] at registered
    simp only [sameFunction]
    exact unregistered.known registered

/-- A script function is not one of the host. -/
theorem defineScript
    (unregistered : interpreter.Unregistered)
    (name : Text)
    (parameters : List Text)
    (body : Text) :
    (interpreter.define name (.script parameters body)).Unregistered where
  ordered := unregistered.ordered.insert name interpreter.functions.size
  named := unregistered.named.define name _
  own {id title action} found := by
    rw [function?_define] at found
    split at found
    · cases found
    · exact unregistered.own found
  unmoved {id title command} found := by
    rw [function?_define] at found
    split at found
    · cases found
    · exact unregistered.unmoved found
  known {other id} registered := by
    obtain ⟨title, command, isName, found⟩ := unregistered.known registered
    refine ⟨title, command, isName, ?_⟩
    rw [function?_define, if_neg (ne_size_of_function? found), found]

/-- A built-in command remains one under another name. -/
theorem moved
    (unregistered : interpreter.Unregistered)
    {id : FunctionId}
    {old : Text}
    (isOld : interpreter.commands.get? old = some id)
    (new : Text) :
    (interpreter.moved id old new).Unregistered where
  ordered := (unregistered.ordered.erase old).insert new id
  named := unregistered.named.moved isOld new
  own found := by
    obtain ⟨before, wasFound⟩ := function?_of_moved found
    exact unregistered.own wasFound
  unmoved found := by
    obtain ⟨before, wasFound⟩ := function?_of_moved found
    exact unregistered.unmoved wasFound
  known {name other} registered := by
    obtain ⟨title, command, isName, found⟩ := unregistered.known registered
    by_cases isMoved : id = other
    · exact ⟨new, command, isName, by
        rw [function?_moved, if_pos isMoved, found, Option.map_some]⟩
    · exact ⟨title, command, isName, by rw [function?_moved, if_neg isMoved, found]⟩

/-- Deleting a command does not register any. -/
theorem erased
    (unregistered : interpreter.Unregistered)
    (name : Text) :
    ({ interpreter with commands := interpreter.commands.erase name } :
      Interpreter σ).Unregistered where
  ordered := unregistered.ordered.erase name
  named other id found := by
    rw [Table.get?_erase] at found
    split at found
    · cases found
    · exact unregistered.named _ _ found
  own := unregistered.own
  unmoved := unregistered.unmoved
  known := unregistered.known

/-- Nor does renaming one. -/
theorem rename
    (unregistered : interpreter.Unregistered)
    {old new : Text}
    {renamed : Interpreter σ}
    (renames : interpreter.rename old new = .ok renamed) :
    renamed.Unregistered := by
  rw [Interpreter.rename] at renames
  cases isOld : interpreter.commands.get? old with
  | none =>
      rw [isOld] at renames
      cases renames
  | some id =>
      simp only [isOld] at renames
      split at renames
      · cases renames
        exact unregistered.erased old
      · cases renames
        exact unregistered.moved isOld new

theorem operate
    (unregistered : interpreter.Unregistered)
    (operation : Operation) :
    (interpreter.operate operation).Unregistered := by
  cases operation with
  | define name parameters body => exact unregistered.defineScript name parameters body
  | rename old new =>
      cases moved : interpreter.rename old new with
      | error reason =>
          simp only [Interpreter.operate, moved]
          exact unregistered
      | ok renamed =>
          simp only [Interpreter.operate, moved]
          exact unregistered.rename moved

/-- No operation of a script registers a command, nor do any number of them. -/
theorem operated
    {after : Interpreter σ}
    (unregistered : interpreter.Unregistered)
    (operated : interpreter.Operated after) :
    after.Unregistered := by
  obtain ⟨operations, same⟩ := operated
  refine of_same ?_ same
  clear same
  induction operations generalizing interpreter with
  | nil => exact unregistered
  | cons operation rest inductionHypothesis =>
      exact inductionHypothesis (unregistered.operate operation)

/-! ## Fresh interpreters -/

/-- Registering a built-in command under a name that has none. -/
theorem register
    (unregistered : interpreter.asSystem.Unregistered)
    (command : Builtin)
    (absent : interpreter.commands.get? command.name = none) :
    (interpreter.define command.name (.builtin command)).asSystem.Unregistered := by
  have named : interpreter.WellNamed := unregistered.named
  have table : ∀ name,
      (interpreter.define command.name (.builtin command)).asSystem.system.get? name =
        if name = command.name then some interpreter.functions.size
        else interpreter.commands.get? name :=
    get?_define interpreter command.name (.builtin command)
  have functions : ∀ id,
      (interpreter.define command.name (.builtin command)).asSystem.function? id =
        if id = interpreter.functions.size then some ⟨command.name, .builtin command⟩
        else interpreter.function? id :=
    function?_define interpreter command.name (.builtin command)
  refine ⟨unregistered.ordered.insert _ _, named.define command.name _, ?_, ?_, ?_⟩
  · intro id title action found
    rw [functions] at found
    split at found
    · cases found
    · exact unregistered.own found
  · intro id title other found
    rw [functions] at found
    rw [table]
    split at found
    case isTrue isNew =>
      cases found
      rw [if_pos rfl, isNew]
    case isFalse =>
      have wasKnown : interpreter.commands.get? other.name = some id :=
        unregistered.unmoved found
      have differs : other.name ≠ command.name := by
        intro same
        rw [same, absent] at wasKnown
        cases wasKnown
      rw [if_neg differs, wasKnown]
  · intro name id registered
    rw [table] at registered
    simp only [functions]
    split at registered
    case isTrue same =>
      cases registered
      exact ⟨command.name, command, same.symm, if_pos rfl⟩
    case isFalse =>
      obtain ⟨title, other, isName, found⟩ := unregistered.known registered
      have there : interpreter.function? id = some ⟨title, .builtin other⟩ := found
      exact ⟨title, other, isName, by rw [if_neg (ne_size_of_function? there), there]⟩

/-- Registering built-in commands under names of their own, one after the other. -/
theorem registerAll
    (commands : List Builtin)
    (distinct : (commands.map Builtin.name).Nodup) :
    ∀ {interpreter : Interpreter σ}, interpreter.asSystem.Unregistered →
      (∀ command ∈ commands, interpreter.commands.get? command.name = none) →
      (commands.foldl (fun registered command =>
        registered.define command.name (.builtin command)) interpreter).asSystem.Unregistered := by
  induction commands with
  | nil => exact fun unregistered _ => unregistered
  | cons command rest inductionHypothesis =>
      intro interpreter unregistered missing
      rw [List.map_cons, List.nodup_cons] at distinct
      obtain ⟨isNew, restDistinct⟩ := distinct
      refine inductionHypothesis restDistinct
        (unregistered.register command (missing command List.mem_cons_self)) fun other member => ?_
      have differs : other.name ≠ command.name := fun same =>
        isNew (same ▸ List.mem_map_of_mem member)
      have table := get?_define interpreter command.name (.builtin command) other.name
      rw [if_neg differs, missing other (List.mem_cons_of_mem _ member)] at table
      exact table

/-- No host has registered a command on a fresh interpreter. -/
theorem fresh
    (limits : Limits)
    (callbacks : Callbacks σ) :
    (Interpreter.fresh limits callbacks).Unregistered := by
  have distinct : (Builtin.all.map Builtin.name).Nodup := by decide +kernel
  have empty : ({ limits, callbacks } : Interpreter σ).asSystem.Unregistered :=
    ⟨Table.ordered_empty, nofun, by simp [asSystem, function?], by simp [asSystem, function?],
      nofun⟩
  rw [fresh_eq_asSystem]
  exact registerAll Builtin.all distinct empty fun _ _ => rfl

end Unregistered

/-! ## Native commands -/

variable {interpreter : Interpreter σ}

/-- The command of a name goes by that name. -/
theorem Unregistered.name_of_command?
    (unregistered : interpreter.Unregistered)
    {name : Text}
    {function : Function σ}
    (found : interpreter.command? name = some function) :
    function.name = name := by
  rw [command?] at found
  cases known : interpreter.commands.get? name with
  | none =>
      rw [known] at found
      cases found
  | some id =>
      obtain ⟨definition, isFunction⟩ := unregistered.named _ _ known
      rw [known, Option.bind_some, isFunction] at found
      cases found
      rfl

/-- What an unregistered interpreter takes for its host's: built-in commands under other names. -/
theorem Unregistered.mem_hostCommands
    (unregistered : interpreter.Unregistered)
    {function : Function σ} :
    function ∈ interpreter.hostCommands ↔
      interpreter.command? function.name = some function ∧
        ∃ command, function.definition = .builtin command ∧ command.name ≠ function.name := by
  rw [hostCommands, List.mem_filterMap]
  constructor
  · rintro ⟨⟨name, id⟩, listed, chosen⟩
    have known := unregistered.ordered.get?_eq_some_iff.mpr listed
    obtain ⟨definition, isFunction⟩ := unregistered.named _ _ known
    simp only [isFunction] at chosen
    split at chosen
    case isFalse => cases chosen
    case isTrue native =>
      cases chosen
      obtain ⟨isNative, elsewhere⟩ := (Bool.and_eq_true _ _).mp native
      refine ⟨by rw [command?, known, Option.bind_some, isFunction], ?_⟩
      cases definition with
      | script parameters body => cases isNative
      | host action => exact absurd isFunction unregistered.own
      | builtin command =>
          refine ⟨command, rfl, fun same => ?_⟩
          have there := unregistered.unmoved isFunction
          rw [same] at there
          simp [there] at elsewhere
  · rintro ⟨found, command, isBuiltin, differs⟩
    obtain ⟨name, definition⟩ := function
    cases isBuiltin
    rw [command?] at found
    obtain ⟨id, known, isFunction⟩ := Option.bind_eq_some_iff.mp found
    refine ⟨(name, id), unregistered.ordered.get?_eq_some_iff.mp known, ?_⟩
    have elsewhere : interpreter.system.get? name ≠ some id := by
      intro there
      obtain ⟨title, other, isName, isOther⟩ := unregistered.known there
      rw [isFunction] at isOther
      cases isOther
      exact differs isName
    simp [isFunction, Definition.isNative, elsewhere]

/-- Host commands are taken to be where a built-in command has another name than its own. -/
theorem Unregistered.mem_map_hostCommands
    (unregistered : interpreter.Unregistered)
    {name : Text} :
    name ∈ interpreter.hostCommands.map Function.name ↔
      ∃ command : Builtin,
        interpreter.definition? name = some (.builtin command) ∧ command.name ≠ name := by
  constructor
  · intro member
    obtain ⟨function, isHost, rfl⟩ := List.mem_map.mp member
    obtain ⟨found, command, isBuiltin, differs⟩ := unregistered.mem_hostCommands.mp isHost
    exact ⟨command, by rw [definition?, found, Option.map_some, isBuiltin], differs⟩
  · rintro ⟨command, defined, differs⟩
    obtain ⟨function, found, isBuiltin⟩ := Option.map_eq_some_iff.mp defined
    have isName := unregistered.name_of_command? found
    rw [← isName] at found differs ⊢
    exact List.mem_map_of_mem (unregistered.mem_hostCommands.mpr
      ⟨found, command, isBuiltin, differs⟩)

/-- No built-in command goes by another name than its own. -/
def BuiltinsUnrenamed (interpreter : Interpreter σ) : Prop :=
  ∀ name command,
    interpreter.definition? name = some (.builtin command) → command.name = name

/-- No command is taken for one of the host as long as no built-in one is renamed. -/
theorem Unregistered.hostCommands_eq_nil_iff
    (unregistered : interpreter.Unregistered) :
    interpreter.hostCommands = [] ↔ interpreter.BuiltinsUnrenamed := by
  rw [← List.map_eq_nil_iff (f := Function.name), List.eq_nil_iff_forall_not_mem]
  simp only [unregistered.mem_map_hostCommands]
  constructor
  · intro none name command defined
    exact Classical.byContradiction fun differs => none name ⟨command, defined, differs⟩
  · rintro unrenamed name ⟨command, defined, differs⟩
    exact differs (unrenamed name command defined)

/-- Defining functions gives a name the meaning on which they agree, if any of them has it. -/
theorem definition?_foldl_define
    {α : Type}
    (title : α → Text)
    (definition : α → Definition σ)
    {name : Text}
    {meaning : Option (Definition σ)}
    (items : List α)
    (agree : ∀ item ∈ items, title item = name → some (definition item) = meaning) :
    ∀ {interpreter : Interpreter σ}, interpreter.WellNamed →
      (items.foldl (fun extended item => extended.define (title item) (definition item))
          interpreter).definition? name =
        if name ∈ items.map title then meaning else interpreter.definition? name := by
  induction items with
  | nil =>
      intro interpreter _
      simp
  | cons item rest inductionHypothesis =>
      intro interpreter named
      have agreeRest : ∀ other ∈ rest, title other = name → some (definition other) = meaning :=
        fun other member => agree other (List.mem_cons_of_mem _ member)
      rw [List.foldl_cons, inductionHypothesis agreeRest (named.define _ _),
        definition?_define named, List.map_cons]
      by_cases inRest : name ∈ rest.map title
      · simp [inRest]
      · by_cases isFirst : name = title item
        · have isMeaning := agree item List.mem_cons_self isFirst.symm
          simp [isFirst, isMeaning]
        · simp [inRest, isFirst]

/-- Every built-in command is in the list of all. -/
theorem mem_all
    (command : Builtin) :
    command ∈ Builtin.all := by
  cases command <;> decide

/-- Built-in commands are told apart by their names. -/
theorem eq_of_name_eq
    {command other : Builtin}
    (same : command.name = other.name) :
    command = other := by
  have findable : ∀ command ∈ Builtin.all,
      Builtin.all.find? (fun known => known.name == command.name) = some command := by
    decide +kernel
  have found := findable command (mem_all command)
  rw [same, findable other (mem_all other)] at found
  exact (Option.some.inj found).symm

/-- The commands of a fresh interpreter are the built-in ones, each under its name. -/
theorem definition?_fresh
    (limits : Limits)
    (callbacks : Callbacks σ)
    {name : Text}
    {definition : Definition σ} :
    (fresh limits callbacks).definition? name = some definition ↔
      ∃ command : Builtin, command.name = name ∧ definition = .builtin command := by
  have empty : ({ limits, callbacks } : Interpreter σ).WellNamed := fun _ _ known => nomatch known
  have registered : ∀ {meaning : Option (Definition σ)},
      (∀ other ∈ Builtin.all, other.name = name → some (.builtin other) = meaning) →
      (fresh limits callbacks).definition? name =
        if name ∈ Builtin.all.map Builtin.name then meaning else none := by
    intro meaning agree
    rw [fresh_eq_asSystem, definition?_asSystem,
      definition?_foldl_define Builtin.name Definition.builtin Builtin.all agree empty]
    rfl
  by_cases known : ∃ command : Builtin, command.name = name
  · obtain ⟨command, rfl⟩ := known
    have agree : ∀ other ∈ Builtin.all, other.name = command.name →
        some (Definition.builtin (σ := σ) other) = some (.builtin command) :=
      fun other _ same => congrArg (some ∘ Definition.builtin) (eq_of_name_eq same)
    rw [registered agree, if_pos (List.mem_map_of_mem (mem_all command))]
    constructor
    · intro same
      exact ⟨command, rfl, (Option.some.inj same).symm⟩
    · rintro ⟨other, same, rfl⟩
      rw [eq_of_name_eq same]
  · have absent : name ∉ Builtin.all.map Builtin.name := fun member => by
      obtain ⟨command, -, isName⟩ := List.mem_map.mp member
      exact known ⟨command, isName⟩
    have agree : ∀ other ∈ Builtin.all, other.name = name →
        some (Definition.builtin (σ := σ) other) = none :=
      fun other _ isName => absurd ⟨other, isName⟩ known
    rw [registered agree, if_neg absent]
    constructor
    · exact nofun
    · rintro ⟨command, isName, -⟩
      exact absurd ⟨command, isName⟩ known

end Interpreter

end LittleScript
