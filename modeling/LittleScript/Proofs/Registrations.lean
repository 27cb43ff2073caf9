import LittleScript.Proofs.CommandTables
import LittleScript.Proofs.FrameTree
import LittleScript.Proofs.HostedRuns
import Mathlib.Logic.Relation

namespace LittleScript

/-!
# Commands that come and go

Scripts define and rename commands, and their host registers, renames and deletes some as well.  In
whatever order they do so, each command goes by the name under which it is found, and no function is
found under two names.  An operation takes away or replaces the commands of the names it is given,
and no other one.
-/

variable {σ : Type}

/-- What is done to the commands of an interpreter, by a script or by its host. -/
inductive Registration (σ : Type) where
  | script (operation : Operation)
  | register (name : Text) (command : List Text → HostAction σ)
  | delete (name : Text)

namespace Registration

/-- The names to which something is done. -/
def names : Registration σ → List Text
  | script (.define name _ _) => [name]
  | script (.rename old new) => [old, new]
  | register name _ => [name]
  | delete name => [name]

end Registration

namespace Interpreter

/-- An interpreter to whose commands something is done; an unknown command is not renamed. -/
def administer (interpreter : Interpreter σ) : Registration σ → Interpreter σ
  | .script operation => interpreter.operate operation
  | .register name command => interpreter.define name (.host command)
  | .delete name => interpreter.delete name

/--
The commands of an interpreter are in order: a name finds a function that goes by it, a function is
found under one name only, and it is either native or has parameters and a body.  The last, `kinds`,
is true of every interpreter, whatever was done to it: the definition of a function is a sum, and
none can be both or neither.  It stands here because it is part of the order, not as something that
an operation could break.
-/
structure CommandsInOrder (interpreter : Interpreter σ) : Prop where
  ordered : interpreter.commands.Ordered
  named : ∀ name id, interpreter.commands.get? name = some id →
    ∃ function, interpreter.function? id = some function ∧ function.name = name
  single : ∀ name other id, interpreter.commands.get? name = some id →
    interpreter.commands.get? other = some id → name = other
  kinds : ∀ name function, interpreter.command? name = some function →
    (function.definition.isNative = true ∧ Command.scriptOf (some function) = none) ∨
      (function.definition.isNative = false ∧
        ∃ parameters body, Command.scriptOf (some function) = some (parameters, body))

/--
`before.Renames old new after`: a command goes by a new name, and is found under that name only,
while all other names mean what they meant; if the new name is empty, it is deleted.
-/
structure Renames (before : Interpreter σ) (old new : Text) (after : Interpreter σ) : Prop where
  inOrder : after.CommandsInOrder
  rest : ∃ functions commands, after = { before with functions, commands }
  places : new ≠ [] → ∀ name, after.commands.get? name =
    if name = new then before.commands.get? old
    else if name = old then none
    else before.commands.get? name
  meanings : new ≠ [] → ∀ name, after.command? name =
    if name = new then
      (before.command? old).map fun function => { function with name := new }
    else if name = old then none
    else before.command? name
  deleted : new = [] → after.functions = before.functions ∧ ∀ name,
    after.commands.get? name = (if name = old then none else before.commands.get? name) ∧
      after.command? name = if name = old then none else before.command? name

/-! ## One operation -/

namespace CommandsInOrder

variable {interpreter : Interpreter σ}

/-- It is enough that each command goes by its name. -/
theorem of_wellNamed
    (ordered : interpreter.commands.Ordered)
    (named : interpreter.WellNamed) :
    interpreter.CommandsInOrder where
  ordered := ordered
  named name id found := by
    obtain ⟨definition, isFunction⟩ := named name id found
    exact ⟨⟨name, definition⟩, isFunction, rfl⟩
  single name other id found foundToo := by
    obtain ⟨definition, isFunction⟩ := named name id found
    obtain ⟨sameDefinition, isFunctionToo⟩ := named other id foundToo
    rw [isFunction] at isFunctionToo
    cases isFunctionToo
    rfl
  kinds name function _ := by
    obtain ⟨title, definition⟩ := function
    cases definition with
    | builtin command => exact .inl ⟨rfl, rfl⟩
    | host action => exact .inl ⟨rfl, rfl⟩
    | script parameters body => exact .inr ⟨rfl, parameters, body, rfl⟩

/-- Commands in order go by the names they are under. -/
theorem wellNamed
    (inOrder : interpreter.CommandsInOrder) :
    interpreter.WellNamed := by
  intro name id found
  obtain ⟨function, isFunction, rfl⟩ := inOrder.named name id found
  exact ⟨function.definition, isFunction⟩

/-- Only the functions and the table of commands matter. -/
theorem of_same
    {other : Interpreter σ}
    (inOrder : interpreter.CommandsInOrder)
    (same : interpreter.SameCommands other) :
    other.CommandsInOrder := by
  refine .of_wellNamed (same.commands ▸ inOrder.ordered) fun name id found => ?_
  rw [← same.commands] at found
  rw [function?, ← same.functions]
  exact inOrder.wellNamed name id found

/-- A definition keeps the commands in order. -/
theorem define
    (inOrder : interpreter.CommandsInOrder)
    (name : Text)
    (definition : Definition σ) :
    (interpreter.define name definition).CommandsInOrder :=
  .of_wellNamed (inOrder.ordered.insert _ _) (inOrder.wellNamed.define name definition)

/-- Deleting a command keeps the others in order. -/
theorem delete
    (inOrder : interpreter.CommandsInOrder)
    (name : Text) :
    (interpreter.delete name).CommandsInOrder := by
  refine .of_wellNamed (inOrder.ordered.erase name) fun other id found => ?_
  simp only [Interpreter.delete, Table.get?_erase] at found
  split at found
  · cases found
  · exact inOrder.wellNamed other id found

/-- A function that is moved is found under its new name only. -/
theorem moved
    (inOrder : interpreter.CommandsInOrder)
    {id : FunctionId}
    {old : Text}
    (isOld : interpreter.commands.get? old = some id)
    (new : Text) :
    (interpreter.moved id old new).CommandsInOrder :=
  .of_wellNamed ((inOrder.ordered.erase old).insert new id) (inOrder.wellNamed.moved isOld new)

end CommandsInOrder

/-- The function of a name is the only one there that goes by it. -/
theorem command?_of_get?
    {interpreter : Interpreter σ}
    {name : Text}
    {id : FunctionId}
    (found : interpreter.commands.get? name = some id) :
    interpreter.command? name = interpreter.function? id := by
  rw [command?, found, Option.bind_some]

/-- A defined command is a new function; all other names mean what they meant. -/
theorem command?_define
    {interpreter : Interpreter σ}
    (inOrder : interpreter.CommandsInOrder)
    (name : Text)
    (definition : Definition σ)
    (other : Text) :
    (interpreter.define name definition).command? other =
      if other = name then some ⟨name, definition⟩ else interpreter.command? other := by
  rw [command?, get?_define]
  split
  case isTrue =>
    rw [Option.bind_some, function?_define, if_pos rfl]
  case isFalse =>
    cases known : interpreter.commands.get? other with
    | none =>
        rw [command?, known]
        rfl
    | some id =>
        obtain ⟨held, found⟩ := inOrder.wellNamed other id known
        rw [Option.bind_some, function?_define, if_neg (ne_size_of_function? found),
          command?_of_get? known]

/-- A deleted name means nothing, and the others mean what they meant. -/
theorem command?_delete
    (interpreter : Interpreter σ)
    (name other : Text) :
    (interpreter.delete name).command? other =
      if other = name then none else interpreter.command? other := by
  have table : (interpreter.delete name).commands.get? other = _ :=
    Table.get?_erase interpreter.commands name other
  rw [command?, table]
  split <;> rfl

/-- A command that is moved is found under its new name only. -/
theorem command?_moved
    {interpreter : Interpreter σ}
    (inOrder : interpreter.CommandsInOrder)
    {id : FunctionId}
    {old : Text}
    (isOld : interpreter.commands.get? old = some id)
    (new name : Text) :
    (interpreter.moved id old new).command? name =
      if name = new then
        (interpreter.command? old).map fun function => { function with name := new }
      else if name = old then none
      else interpreter.command? name := by
  have table : (interpreter.moved id old new).commands.get? name = _ :=
    Table.get?_insert (interpreter.commands.erase old) new name id
  rw [command?, table, Table.get?_erase]
  split
  case isTrue =>
    rw [Option.bind_some, function?_moved, if_pos rfl, command?_of_get? isOld]
  case isFalse =>
    split
    case isTrue => rfl
    case isFalse different =>
      cases known : interpreter.commands.get? name with
      | none =>
          rw [command?, known]
          rfl
      | some other =>
          have apart : id ≠ other := by
            rintro rfl
            exact different (inOrder.single name old id known isOld)
          rw [Option.bind_some, function?_moved, if_neg apart, command?_of_get? known]

/-- A known command is renamed, or deleted if the new name is empty; an unknown one is refused. -/
theorem rename_cases
    {interpreter : Interpreter σ}
    (inOrder : interpreter.CommandsInOrder)
    (old new : Text) :
    (interpreter.commands.get? old = none ∧
      interpreter.rename old new = .error (.unknownFunction old)) ∨
    ∃ id renamed, interpreter.commands.get? old = some id ∧
      interpreter.rename old new = .ok renamed ∧ interpreter.Renames old new renamed := by
  cases isOld : interpreter.commands.get? old with
  | none =>
      refine .inl ⟨rfl, ?_⟩
      rw [rename, isOld]
  | some id =>
      refine .inr ⟨id, ?_⟩
      cases new with
      | nil =>
          refine ⟨interpreter.delete old, rfl, by rw [rename, isOld]; rfl, ?_⟩
          constructor
          case inOrder => exact inOrder.delete old
          case rest => exact ⟨_, _, rfl⟩
          case places => exact fun named => absurd rfl named
          case meanings => exact fun named => absurd rfl named
          case deleted =>
            exact fun _ => ⟨rfl, fun name => ⟨Table.get?_erase _ old name,
              command?_delete interpreter old name⟩⟩
      | cons first more =>
          refine ⟨interpreter.moved id old (first :: more), rfl, by rw [rename, isOld]; rfl, ?_⟩
          constructor
          case inOrder => exact inOrder.moved isOld _
          case rest => exact ⟨_, _, rfl⟩
          case places =>
            intro _ name
            have table := Table.get?_insert (interpreter.commands.erase old) (first :: more) name id
            rw [Table.get?_erase] at table
            rw [isOld]
            exact table
          case meanings => exact fun _ => command?_moved inOrder isOld _
          case deleted => exact fun isNil => by cases isNil

namespace CommandsInOrder

variable {interpreter : Interpreter σ}

/-- No operation of a script breaks the order. -/
theorem operate
    (inOrder : interpreter.CommandsInOrder)
    (operation : Operation) :
    (interpreter.operate operation).CommandsInOrder := by
  cases operation with
  | define name parameters body => exact inOrder.define name _
  | rename old new =>
      rw [Interpreter.operate]
      obtain ⟨-, refused⟩ | ⟨id, renamed, -, renames, spec⟩ := rename_cases inOrder old new
      · rw [refused]
        exact inOrder
      · rw [renames]
        exact spec.inOrder

/-- Whatever is done to commands in order, they stay so. -/
theorem administer
    (inOrder : interpreter.CommandsInOrder)
    (registration : Registration σ) :
    (interpreter.administer registration).CommandsInOrder := by
  cases registration with
  | script operation => exact inOrder.operate operation
  | register name command => exact inOrder.define name _
  | delete name => exact inOrder.delete name

/-- Nothing that a host or a script does to the commands breaks it. -/
theorem foldl_administer
    (registrations : List (Registration σ)) :
    ∀ {interpreter : Interpreter σ}, interpreter.CommandsInOrder →
      (registrations.foldl Interpreter.administer interpreter).CommandsInOrder := by
  induction registrations with
  | nil => exact id
  | cons registration rest inductionHypothesis =>
      exact fun inOrder => inductionHypothesis (inOrder.administer registration)

/-- So it is kept by whatever scripts do. -/
theorem operated
    {after : Interpreter σ}
    (inOrder : interpreter.CommandsInOrder)
    (operated : interpreter.Operated after) :
    after.CommandsInOrder := by
  obtain ⟨operations, same⟩ := operated
  refine of_same ?_ same
  clear same
  induction operations generalizing interpreter with
  | nil => exact inOrder
  | cons operation rest inductionHypothesis =>
      exact inductionHypothesis (inOrder.operate operation)

end CommandsInOrder

/-- Nothing is done to a command but by its name. -/
theorem command?_administer
    {interpreter : Interpreter σ}
    (inOrder : interpreter.CommandsInOrder)
    {registration : Registration σ}
    {name : Text}
    (unnamed : name ∉ registration.names) :
    (interpreter.administer registration).command? name = interpreter.command? name := by
  cases registration with
  | register title command =>
      rw [administer, command?_define inOrder, if_neg (mt List.mem_singleton.mpr unnamed)]
  | delete title =>
      rw [administer, command?_delete, if_neg (mt List.mem_singleton.mpr unnamed)]
  | script operation =>
      cases operation with
      | define title parameters body =>
          rw [administer, operate, command?_define inOrder,
            if_neg (mt List.mem_singleton.mpr unnamed)]
      | rename old new =>
          have notOld : name ≠ old := fun isOld => unnamed (isOld ▸ List.mem_cons_self)
          have notNew : name ≠ new := fun isNew =>
            unnamed (isNew ▸ List.mem_cons_of_mem _ List.mem_cons_self)
          rw [administer, operate]
          obtain ⟨-, refused⟩ | ⟨id, renamed, -, renames, spec⟩ := rename_cases inOrder old new
          · rw [refused]
            rfl
          · rw [renames]
            cases new with
            | nil => exact ((spec.deleted rfl).2 name).2.trans (if_neg notOld)
            | cons first more =>
                exact (spec.meanings (List.cons_ne_nil _ _) name).trans
                  ((if_neg notNew).trans (if_neg notOld))

end Interpreter

/-! ## Runs -/

namespace Eval

open LittleScript.Interpreter (CommandsInOrder SameCommands)

/-- A move does to the commands what scripts do. -/
theorem Move.operated
    {realm : Realm σ}
    {before after : Machine σ}
    (move : Move realm before after) :
    before.interpreter.Operated after.interpreter := by
  cases move with
  | aside same =>
      exact .of_same ⟨same.functions.symm, same.commands.symm, same.system.symm⟩
  | define name parameters body =>
      exact ⟨[.define name parameters body], ⟨rfl, rfl, rfl⟩⟩
  | @rename old new renamed renames =>
      refine ⟨[.rename old new], ?_⟩
      simp only [List.foldl_cons, List.foldl_nil, Interpreter.operate, renames]
      exact ⟨rfl, rfl, rfl⟩
  | store frame name value _ =>
      obtain ⟨stored, frames, world, ran, -⟩ := store_apply frame name value before
      rw [final_of_ok ran]
      exact .of_same ⟨rfl, rfl, rfl⟩
  | watch name code _ =>
      obtain ⟨frames, ran, -⟩ := watch_apply name code before
      rw [final_of_ok ran]
      exact .of_same ⟨rfl, rfl, rfl⟩
  | _ =>
      exact .of_same ⟨rfl, rfl, rfl⟩

/-- The realm of the interpreters whose commands are in order, whoever registered them. -/
def Realm.inOrder : Realm σ where
  holds := CommandsInOrder
  reach _ := true
  allowed _ := True
  drops := True
  root := rfl
  current _ := rfl
  up _ _ _ _ _ := rfl
  down _ _ _ _ _ := rfl

/-- The commands of a jail are in order. -/
theorem commandsInOrder_jail
    (parent : Interpreter σ)
    (clean : Bool) :
    (jailInterpreter parent clean).CommandsInOrder := by
  have fresh : (Interpreter.fresh parent.limits
      ({ write := parent.callbacks.write } : Callbacks σ)).CommandsInOrder :=
    have unregistered := Interpreter.Unregistered.fresh parent.limits
      ({ write := parent.callbacks.write } : Callbacks σ)
    .of_wellNamed unregistered.ordered unregistered.named
  have registered : ∀ (functions : List (Function σ)) {jail : Interpreter σ},
      jail.CommandsInOrder → (functions.foldl (fun jail function =>
        jail.define function.name function.definition) jail).CommandsInOrder := by
    intro functions
    induction functions with
    | nil => exact id
    | cons function rest inductionHypothesis =>
        exact fun inOrder => inductionHypothesis (inOrder.define function.name _)
  cases clean with
  | true => exact fresh
  | false => exact registered parent.hostCommands fresh

/-- Whatever host commands and scripts do, to the commands they do what scripts do. -/
theorem leadsHosts_operated :
    LeadsHosts (Realm.inOrder (σ := σ)) fun before after =>
      before.interpreter.Operated after.interpreter where
  refl _ := .of_same ⟨rfl, rfl, rfl⟩
  trans := .trans
  holds operated inOrder := inOrder.operated operated
  move _ move := move.operated
  back _ _ _ := .of_same ⟨rfl, rfl, rfl⟩
  pop _ _ := .of_same ⟨rfl, rfl, rfl⟩
  goesOnward _ := True.intro
  onwardTrans _ _ := True.intro
  allowed _ := True.intro
  drops := True.intro
  holdsInJail clean machine _ :=
    (commandsInOrder_jail machine.interpreter clean).of_same ⟨rfl, rfl, rfl⟩
  surrounded _ same := .of_same (by rw [same]; exact ⟨rfl, rfl, rfl⟩)
  declared _ _ _ := .of_same ⟨rfl, rfl, rfl⟩
  pushFrame _ := .of_same ⟨rfl, rfl, rfl⟩
  popFrame machine := by
    rw [final, popFrame_apply]
    cases machine.interpreter.currentFrame.parent <;> exact .of_same ⟨rfl, rfl, rfl⟩

end Eval

/--
What a host does with a machine: it registers, renames and deletes commands; it changes whatever
leaves them alone, such as the callbacks and the world; and it has code evaluated, expressions
computed and lists read, in its own frames and in jails, or does what a host command may do.
-/
inductive Machine.HostStep (machine : Machine σ) : Machine σ → Prop where
  | operated (registration : Registration σ) :
      HostStep machine
        { machine with interpreter := machine.interpreter.administer registration }
  | equipped {interpreter : Interpreter σ} (world : World σ) :
      machine.interpreter.SameCommands interpreter →
      HostStep machine ⟨interpreter, world⟩
  | evaluated (fuel : Nat) (context : Context) (code : Text) :
      HostStep machine (machine.perform (Eval.evaluateIn (Eval.evaluate fuel) context code)).2
  | performed (fuel : Nat) (action : HostAction σ) :
      HostStep machine (machine.perform (Eval.perform (Eval.evaluate fuel) action)).2
  | listed (fuel : Nat) (text : Text) :
      HostStep machine (machine.perform (Eval.readList (Eval.evaluate fuel) text)).2
  | computed (fuel : Nat) (code : Text) :
      HostStep machine (machine.perform (Eval.expression (Eval.evaluate fuel) code)).2
  | jailed (fuel : Nat) (code : Text) (clean : Bool) :
      HostStep machine (machine.perform (Eval.jailEvaluate (Eval.evaluate fuel) code clean)).2

namespace Interpreter

/-- The commands of an interpreter come from those of another one by what is done to them. -/
def Administered (before after : Interpreter σ) : Prop :=
  ∃ registrations : List (Registration σ),
    (registrations.foldl administer before).SameCommands after

/-- The same is done to the same commands. -/
theorem SameCommands.administer
    {first second : Interpreter σ}
    (same : first.SameCommands second)
    (registration : Registration σ) :
    (first.administer registration).SameCommands (second.administer registration) := by
  cases registration with
  | script operation => exact same.operate operation
  | register name command =>
      constructor <;> simp only [Interpreter.administer, define, same.functions, same.commands,
        same.system]
  | delete name =>
      constructor <;> simp only [Interpreter.administer, delete, same.functions, same.commands,
        same.system]

/-- So it is for many operations. -/
theorem SameCommands.foldl_administer
    (registrations : List (Registration σ)) :
    ∀ {first second : Interpreter σ}, first.SameCommands second →
      (registrations.foldl Interpreter.administer first).SameCommands
        (registrations.foldl Interpreter.administer second) := by
  induction registrations with
  | nil => exact fun same => same
  | cons registration rest inductionHypothesis =>
      exact fun same => inductionHypothesis (same.administer registration)

/-- What is done in two turns is done in one. -/
theorem Administered.trans
    {before middle after : Interpreter σ}
    (first : before.Administered middle)
    (second : middle.Administered after) :
    before.Administered after := by
  obtain ⟨early, same⟩ := first
  obtain ⟨late, sameThere⟩ := second
  refine ⟨early ++ late, ?_⟩
  rw [List.foldl_append]
  exact (same.foldl_administer late).trans sameThere

/-- What scripts do to the commands a host could do. -/
theorem Operated.administered
    {before after : Interpreter σ}
    (operated : before.Operated after) :
    before.Administered after := by
  obtain ⟨operations, same⟩ := operated
  refine ⟨operations.map .script, ?_⟩
  rw [List.foldl_map]
  exact same

/-- Commands in order are in order after all that is done to them. -/
theorem Administered.commandsInOrder
    {before after : Interpreter σ}
    (administered : before.Administered after)
    (inOrder : before.CommandsInOrder) :
    after.CommandsInOrder := by
  obtain ⟨registrations, same⟩ := administered
  exact (inOrder.foldl_administer registrations).of_same same

/-- The commands of a new interpreter are in order. -/
theorem commandsInOrder_of_configuration
    {configuration : Configuration}
    {callbacks : Callbacks σ}
    {interpreter : Interpreter σ}
    (configured : configuration.interpreter callbacks = .ok interpreter) :
    interpreter.CommandsInOrder := by
  have setDollar : ∀ {interpreter : Interpreter σ} (dollar : Text),
      interpreter.CommandsInOrder →
      ({ interpreter with dollar } : Interpreter σ).CommandsInOrder :=
    fun _ inOrder => inOrder.of_same ⟨rfl, rfl, rfl⟩
  obtain ⟨limits, dollar, rfl⟩ := Configuration.interpreter_eq configured
  have unregistered := Unregistered.fresh limits callbacks
  exact setDollar dollar (.of_wellNamed unregistered.ordered unregistered.named)

end Interpreter

namespace Machine

variable {before after : Machine σ}

/-- For the commands, what a host does is a sequence of operations on them. -/
theorem HostStep.administered
    (step : before.HostStep after)
    (inOrder : before.interpreter.CommandsInOrder) :
    before.interpreter.Administered after.interpreter := by
  have leads := Eval.leadsHosts_operated (σ := σ)
  cases step with
  | operated registration => exact ⟨[registration], ⟨rfl, rfl, rfl⟩⟩
  | equipped world same => exact ⟨[], same⟩
  | evaluated fuel context code => exact (leads.evaluated inOrder fuel context code).administered
  | performed fuel action => exact (leads.performed inOrder fuel action).administered
  | listed fuel text => exact (leads.assembled inOrder fuel (.readList text)).administered
  | computed fuel code => exact (leads.assembled inOrder fuel (.expression code)).administered
  | jailed fuel code clean =>
      exact (leads.assembled inOrder fuel (.jailEvaluate True.intro code clean)).administered

/-- Whatever a host does from one machine on, one thing after the other, and its scripts. -/
theorem administered_of_steps
    (steps : Relation.ReflTransGen HostStep before after)
    (inOrder : before.interpreter.CommandsInOrder) :
    before.interpreter.Administered after.interpreter := by
  induction steps with
  | refl => exact ⟨[], ⟨rfl, rfl, rfl⟩⟩
  | tail _ step inductionHypothesis =>
      exact inductionHypothesis.trans
        (step.administered (inductionHypothesis.commandsInOrder inOrder))

end Machine

namespace Eval

open LittleScript.Interpreter (CommandsInOrder)

/--
What is true on a machine whose commands are in order.  Whatever is done to them they stay so, and
nothing is done to a command but by its name; whatever runs, commands are only called where they are
in order; so are those of jails.  Renaming an unknown command fails and changes nothing, and any
other one is renamed or deleted.
-/
structure KeepsOrder (machine : Machine σ) : Prop where
  administered : ∀ registrations : List (Registration σ),
    (registrations.foldl Interpreter.administer machine.interpreter).CommandsInOrder
  untouched : ∀ (registration : Registration σ) (name : Text), name ∉ registration.names →
    (machine.interpreter.administer registration).command? name =
      machine.interpreter.command? name
  called : ∀ dispatcher, AgreesWhere CommandsInOrder dispatcher → ∀ fuel context code,
    machine.perform (evaluateIn (evaluateVia dispatcher fuel) context code) =
      machine.perform (evaluateIn (evaluate fuel) context code)
  calledByHost : ∀ dispatcher, AgreesWhere CommandsInOrder dispatcher → ∀ fuel action,
    machine.perform (perform (evaluateVia dispatcher fuel) action) =
      machine.perform (perform (evaluate fuel) action)
  jailed : ∀ clean, (jailInterpreter machine.interpreter clean).CommandsInOrder
  refused : ∀ old new, machine.interpreter.command? old = none →
    machine.interpreter.rename old new = .error (.unknownFunction old) ∧
      ∀ run rounds more, callBuiltin run rounds .rename (old :: new :: more) machine =
        .ok (.failed (.unknownFunction old)) machine
  renamed : ∀ old new function, machine.interpreter.command? old = some function →
    ∃ renamed, machine.interpreter.rename old new = .ok renamed ∧
      machine.interpreter.Renames old new renamed ∧
      ∀ run rounds more, callBuiltin run rounds .rename (old :: new :: more) machine =
        .ok (.value old) { machine with interpreter := renamed }

/-- A machine whose commands are in order keeps them so. -/
theorem KeepsOrder.of_commandsInOrder
    {machine : Machine σ}
    (inOrder : machine.interpreter.CommandsInOrder) :
    KeepsOrder machine where
  administered registrations := inOrder.foldl_administer registrations
  untouched _ _ unnamed := Interpreter.command?_administer inOrder unnamed
  called _ agrees := leadsHosts_operated.called inOrder agrees
  calledByHost _ agrees := leadsHosts_operated.calledByHost inOrder agrees
  jailed := commandsInOrder_jail machine.interpreter
  refused old new unknown := by
    obtain ⟨-, refused⟩ | ⟨id, renamed, isOld, -⟩ :=
      Interpreter.rename_cases inOrder old new
    · refine ⟨refused, fun run rounds more => ?_⟩
      simp only [callBuiltin, Command.rename, interpreter_bind_apply, refused]
      rfl
    · obtain ⟨function, isFunction, -⟩ := inOrder.named old id isOld
      rw [Interpreter.command?_of_get? isOld, isFunction] at unknown
      cases unknown
  renamed old new function known := by
    obtain ⟨missing, -⟩ | ⟨id, renamed, -, renames, spec⟩ :=
      Interpreter.rename_cases inOrder old new
    · rw [Interpreter.command?, missing] at known
      cases known
    · refine ⟨renamed, renames, spec, fun run rounds more => ?_⟩
      simp only [callBuiltin, Command.rename, interpreter_bind_apply, renames]
      rfl

/--
Whatever a host does with an interpreter that it has configured, and whatever its scripts do, the
commands are in order: each goes by the name under which it is found, none is found under two names,
and each is either native or a script.  From any such machine on, they stay in order throughout each
operation and evaluation, and renaming touches the two names only that it is given.
-/
theorem commands_stay_in_order :
    (∀ (configuration : Configuration) (callbacks : Callbacks σ) (interpreter : Interpreter σ)
        (world : World σ) (machine : Machine σ),
      configuration.interpreter callbacks = .ok interpreter →
      Relation.ReflTransGen Machine.HostStep ⟨interpreter, world⟩ machine →
      machine.interpreter.CommandsInOrder) ∧
      ∀ machine : Machine σ, machine.interpreter.CommandsInOrder → KeepsOrder machine := by
  constructor
  · intro configuration callbacks interpreter world machine configured steps
    have inOrder := Interpreter.commandsInOrder_of_configuration configured
    exact (Machine.administered_of_steps steps inOrder).commandsInOrder inOrder
  · exact fun machine inOrder => .of_commandsInOrder inOrder

/-! ## A host command that a script moves onto a built-in one -/

/-- A machine whose host has registered a command. -/
def attended : Machine Unit where
  interpreter := (Interpreter.fresh {} {}).administer
    (.register (Text.ofString "echo") fun _ => .reply (.value []))
  world := { host := () }

/-- Define `print` anew, move the command of the host to `set`, and delete `print`. -/
def shuffle : Text :=
  Text.ofString "func print {} {}; rename echo set; rename set set; rename print {}"

/-- The machine behind the script. -/
def shuffled : Machine Unit :=
  (attended.perform (evaluateIn (evaluate 9) .background shuffle)).2

/-- The machine is reached by steps of a host. -/
theorem shuffled_of_steps :
    Relation.ReflTransGen Machine.HostStep
      (⟨.fresh {} {}, { host := () }⟩ : Machine Unit) shuffled :=
  (Relation.ReflTransGen.single (.operated _)).tail (.evaluated 9 .background shuffle)

/-- Behind the script `set` is the command of the host, and can be moved on from there. -/
theorem commands_stay_in_order_shuffled :
    ({} : Configuration).interpreter ({} : Callbacks Unit) = .ok (.fresh {} {}) ∧
      shuffled.interpreter.CommandsInOrder ∧
      shuffled.interpreter.command? (Text.ofString "echo") = none ∧
      shuffled.interpreter.rename (Text.ofString "echo") (Text.ofString "set") =
        .error (.unknownFunction (Text.ofString "echo")) ∧
      ∃ function renamed, shuffled.interpreter.command? (Text.ofString "set") = some function ∧
        function.definition.isNative = true ∧
        shuffled.interpreter.rename (Text.ofString "set") (Text.ofString "get") = .ok renamed ∧
        renamed.command? (Text.ofString "get") =
          some { function with name := Text.ofString "get" } ∧
        renamed.command? (Text.ofString "set") = none := by
  have inOrder := commands_stay_in_order.1 {} {} (.fresh {} {}) { host := () } shuffled rfl
    shuffled_of_steps
  have keeps := commands_stay_in_order.2 shuffled inOrder
  have gone : shuffled.interpreter.command? (Text.ofString "echo") = none :=
    Option.isNone_iff_eq_none.mp (by decide +kernel)
  have isNative : (shuffled.interpreter.command? (Text.ofString "set")).map
      (fun function => function.definition.isNative) = some true := by
    decide +kernel
  obtain ⟨function, known, native⟩ := Option.map_eq_some_iff.mp isNative
  obtain ⟨renamed, renames, spec, -⟩ :=
    keeps.renamed (Text.ofString "set") (Text.ofString "get") function known
  have named : Text.ofString "get" ≠ [] := by decide
  have meant := spec.meanings named
  refine ⟨rfl, inOrder, gone, (keeps.refused _ _ gone).1, function, renamed, known, native, renames,
    ?_, ?_⟩
  · rw [meant, if_pos rfl, known]
    rfl
  · rw [meant, if_neg (by decide), if_pos rfl]

end Eval

end LittleScript
