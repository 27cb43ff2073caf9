import LittleScript.Proofs.Registrations
import Mathlib.Data.List.Basic
import Mathlib.Data.List.Induction

namespace LittleScript

/-!
# The commands of the system

An interpreter remembers the commands that it starts with.  Whatever its host and its scripts do to
the commands, under the name of a built-in command it remembers the same function, which does the
same, and under any other name none.  But renaming a command renames its function, also the one that
is remembered: it goes by the last name under which it was found as a command.
-/

variable {σ : Type}

namespace Interpreter

/-- What an interpreter is like before anything is done to its commands. -/
structure StartsWithBuiltins (interpreter : Interpreter σ) : Prop where
  inOrder : interpreter.CommandsInOrder
  remembers : interpreter.system = interpreter.commands
  builtins : ∀ command : Builtin, ∃ id, interpreter.commands.get? command.name = some id ∧
    interpreter.function? id = some ⟨command.name, .builtin command⟩
  only : ∀ name id, interpreter.system.get? name = some id →
    ∃ command : Builtin, command.name = name

theorem StartsWithBuiltins.fresh
    (limits : Limits)
    (callbacks : Callbacks σ) :
    (Interpreter.fresh limits callbacks).StartsWithBuiltins where
  inOrder :=
    have unregistered := Unregistered.fresh limits callbacks
    .of_wellNamed unregistered.ordered unregistered.named
  remembers := rfl
  builtins command := by
    have unregistered := Unregistered.fresh limits callbacks
    obtain ⟨function, known, isBuiltin⟩ := Option.map_eq_some_iff.mp
      ((definition?_fresh limits callbacks).mpr ⟨command, rfl, rfl⟩)
    obtain ⟨id, found, isFunction⟩ := Option.bind_eq_some_iff.mp known
    obtain ⟨title, definition⟩ := function
    cases isBuiltin
    have isName : title = command.name := unregistered.name_of_command? known
    exact ⟨id, found, isName ▸ isFunction⟩
  only name id registered := by
    obtain ⟨title, command, isName, -⟩ := (Unregistered.fresh limits callbacks).known registered
    exact ⟨command, isName⟩

theorem StartsWithBuiltins.of_configuration
    {configuration : Configuration}
    {callbacks : Callbacks σ}
    {interpreter : Interpreter σ}
    (configured : configuration.interpreter callbacks = .ok interpreter) :
    interpreter.StartsWithBuiltins := by
  have setDollar : ∀ {interpreter : Interpreter σ} (dollar : Text),
      interpreter.StartsWithBuiltins →
      ({ interpreter with dollar } : Interpreter σ).StartsWithBuiltins :=
    fun _ starts => ⟨starts.inOrder.of_same ⟨rfl, rfl, rfl⟩, starts.remembers, starts.builtins,
      starts.only⟩
  obtain ⟨limits, dollar, rfl⟩ := Configuration.interpreter_eq configured
  exact setDollar dollar (.fresh limits callbacks)

/-! ## One operation -/

/-- The new name that an operation gives to a function, if it gives it one. -/
def newName? (interpreter : Interpreter σ) (id : FunctionId) : Registration σ → Option Text
  | .script (.rename old new) =>
      if interpreter.commands.get? old = some id ∧ new ≠ [] then some new else none
  | _ => none

/-- No operation changes what the interpreter remembers. -/
theorem system_administer
    (interpreter : Interpreter σ)
    (registration : Registration σ) :
    (interpreter.administer registration).system = interpreter.system := by
  cases registration with
  | register name command => rfl
  | delete name => rfl
  | script operation =>
      cases operation with
      | define name parameters body => rfl
      | rename old new =>
          rw [administer, operate]
          cases renames : interpreter.rename old new with
          | error reason => rfl
          | ok renamed =>
              obtain ⟨functions, commands, rfl⟩ := rename_eq renames
              rfl

/-- An operation changes at most the name of a function that is there. -/
theorem function?_administer
    {interpreter : Interpreter σ}
    {id : FunctionId}
    {title : Text}
    {definition : Definition σ}
    (found : interpreter.function? id = some ⟨title, definition⟩)
    (registration : Registration σ) :
    (interpreter.administer registration).function? id =
      some ⟨(interpreter.newName? id registration).getD title, definition⟩ := by
  have defined : ∀ name added, (interpreter.define name added).function? id =
      some ⟨title, definition⟩ := fun name added => by
    rw [function?_define, if_neg (ne_size_of_function? found), found]
  cases registration with
  | register name command => exact defined name _
  | delete name => exact found
  | script operation =>
      cases operation with
      | define name parameters body => exact defined name _
      | rename old new =>
          rw [administer, operate, rename, newName?]
          cases isOld : interpreter.commands.get? old with
          | none =>
              rw [if_neg (fun both => by cases both.1)]
              exact found
          | some other =>
              cases new with
              | nil =>
                  rw [if_neg (fun both => both.2 rfl)]
                  exact found
              | cons first more =>
                  have moved := interpreter.function?_moved other id old (first :: more)
                  rw [found] at moved
                  refine Eq.trans moved ?_
                  by_cases isMoved : other = id
                  · simp [isMoved]
                  · simp [isMoved]

/-- Only renaming a command gives a new name to its function. -/
theorem newName?_eq_some
    {interpreter : Interpreter σ}
    {id : FunctionId}
    {registration : Registration σ}
    {name : Text}
    (renamed : interpreter.newName? id registration = some name) :
    ∃ old, registration = .script (.rename old name) ∧ interpreter.commands.get? old = some id ∧
      name ≠ [] := by
  cases registration with
  | register title command => cases renamed
  | delete title => cases renamed
  | script operation =>
      cases operation with
      | define title parameters body => cases renamed
      | rename old new =>
          obtain ⟨⟨isOld, named⟩, isNew⟩ := Option.ite_some_none_eq_some.mp renamed
          subst isNew
          exact ⟨old, rfl, isOld, named⟩

/-- A function that gets a new name is found under it. -/
theorem get?_of_newName?
    {interpreter : Interpreter σ}
    (inOrder : interpreter.CommandsInOrder)
    {id : FunctionId}
    {registration : Registration σ}
    {name : Text}
    (renamed : interpreter.newName? id registration = some name) :
    (interpreter.administer registration).commands.get? name = some id := by
  obtain ⟨old, rfl, isOld, named⟩ := newName?_eq_some renamed
  rw [administer, operate]
  obtain ⟨missing, -⟩ | ⟨other, after, -, renames, spec⟩ := rename_cases inOrder old name
  · rw [missing] at isOld
    cases isOld
  · rw [renames]
    exact (spec.places named name).trans ((if_pos rfl).trans isOld)

/-! ## The last name of a function -/

/-- The name is the last one under which a function is found while operations are done in order. -/
def LastFound (interpreter : Interpreter σ) (registrations : List (Registration σ))
    (id : FunctionId) (name : Text) : Prop :=
  ∃ early late, registrations = early ++ late ∧
    (early.foldl administer interpreter).commands.get? name = some id ∧
    ∀ more rest, late = more ++ rest → more ≠ [] → ∀ other,
      ((early ++ more).foldl administer interpreter).commands.get? other ≠ some id

variable {interpreter : Interpreter σ} {registrations : List (Registration σ)} {id : FunctionId}

/-- A function has one last name. -/
theorem LastFound.unique
    (inOrder : interpreter.CommandsInOrder)
    {name other : Text}
    (found : interpreter.LastFound registrations id name)
    (foundToo : interpreter.LastFound registrations id other) :
    name = other := by
  obtain ⟨early, late, rfl, isName, gone⟩ := found
  obtain ⟨earlyToo, lateToo, same, isOther, goneToo⟩ := foundToo
  obtain ⟨more, isEarly, isLate⟩ | ⟨more, isEarly, isLate⟩ := List.append_eq_append_iff.mp same
  all_goals
    subst isEarly isLate
    cases more with
    | nil =>
        rw [List.append_nil] at *
        exact (inOrder.foldl_administer _).single _ _ id isName isOther
    | cons registration more => ?_
  · exact absurd isOther (gone _ _ rfl (List.cons_ne_nil _ _) other)
  · exact absurd isName (goneToo _ _ rfl (List.cons_ne_nil _ _) name)

/-- A function that is found keeps what it does, and goes by the last name it is found under. -/
theorem exists_lastFound
    (inOrder : interpreter.CommandsInOrder)
    {start : Text}
    (isFound : interpreter.commands.get? start = some id)
    {definition : Definition σ}
    (isFunction : interpreter.function? id = some ⟨start, definition⟩)
    (registrations : List (Registration σ)) :
    ∃ title, interpreter.LastFound registrations id title ∧
      (registrations.foldl administer interpreter).function? id = some ⟨title, definition⟩ := by
  induction registrations using List.reverseRecOn with
  | nil =>
      refine ⟨start, ⟨[], [], rfl, isFound, fun more rest isNil notNil => ?_⟩, isFunction⟩
      exact absurd (List.append_eq_nil_iff.mp isNil.symm).1 notNil
  | append_singleton front registration inductionHypothesis =>
      obtain ⟨title, ⟨early, late, rfl, wasFound, gone⟩, wasFunction⟩ := inductionHypothesis
      have isThere := function?_administer wasFunction registration
      have inOrderThere := inOrder.foldl_administer ((early ++ late) ++ [registration])
      rw [← List.foldl_concat administer] at isThere
      by_cases anywhere : ∃ name, (((early ++ late) ++ [registration]).foldl administer
          interpreter).commands.get? name = some id
      case pos =>
        obtain ⟨name, found⟩ := anywhere
        obtain ⟨function, known, rfl⟩ := inOrderThere.named name id found
        rw [isThere] at known
        cases known
        refine ⟨_, ⟨_, [], (List.append_nil _).symm, found, fun more rest isNil notNil => ?_⟩,
          isThere⟩
        exact absurd (List.append_eq_nil_iff.mp isNil.symm).1 notNil
      case neg =>
        have unnamed :
            ((early ++ late).foldl administer interpreter).newName? id registration = none := by
          refine Option.eq_none_iff_forall_ne_some.mpr fun name renamed => anywhere ⟨name, ?_⟩
          rw [List.foldl_concat]
          exact get?_of_newName? (inOrder.foldl_administer _) renamed
        rw [unnamed] at isThere
        refine ⟨title, ⟨early, late ++ [registration], List.append_assoc _ _ _, wasFound,
          fun more rest split notNil other => ?_⟩, isThere⟩
        obtain rfl | ⟨front, last, rfl⟩ := rest.eq_nil_or_concat
        · rw [List.append_nil] at split
          subst split
          rw [← List.append_assoc]
          exact fun found => anywhere ⟨other, found⟩
        · rw [List.concat_eq_append, ← List.append_assoc] at split
          exact gone more front (List.append_inj_left' split rfl) notNil other

/-- A function whose name is never given away keeps it, whatever else is done. -/
theorem function?_of_unrenamed
    {start : Text}
    {definition : Definition σ} :
    ∀ (registrations : List (Registration σ)) {interpreter : Interpreter σ},
      interpreter.CommandsInOrder →
      interpreter.function? id = some ⟨start, definition⟩ →
      (∀ new, Registration.script (.rename start new) ∉ registrations) →
      (registrations.foldl administer interpreter).function? id = some ⟨start, definition⟩
  | [], _, _, isFunction, _ => isFunction
  | registration :: rest, interpreter, inOrder, isFunction, unrenamed => by
      have isThere := function?_administer isFunction registration
      have unnamed : interpreter.newName? id registration = none := by
        refine Option.eq_none_iff_forall_ne_some.mpr fun new renamed => unrenamed new ?_
        obtain ⟨old, rfl, isOld, -⟩ := newName?_eq_some renamed
        obtain ⟨function, known, rfl⟩ := inOrder.named old id isOld
        rw [isFunction] at known
        cases known
        exact List.mem_cons_self
      rw [unnamed] at isThere
      exact function?_of_unrenamed rest (inOrder.administer registration) isThere
        fun new member => unrenamed new (List.mem_cons_of_mem _ member)

/--
What an interpreter remembers behind operations: the same functions as before under the names of
the built-in commands, and nothing else.  Each function does the same and goes by the last name
under which it was found, which is still its own where the operations never rename that command.
-/
structure RemembersBuiltins (interpreter : Interpreter σ)
    (registrations : List (Registration σ)) (after : Interpreter σ) : Prop where
  system : after.system = interpreter.system
  absent : ∀ name, (∀ command : Builtin, command.name ≠ name) → after.systemCommand? name = none
  present : ∀ command : Builtin, ∃ id title, after.system.get? command.name = some id ∧
    after.systemCommand? command.name = some ⟨title, .builtin command⟩ ∧
    ∀ name, title = name ↔ interpreter.LastFound registrations id name
  kept : ∀ command : Builtin,
    (∀ new, Registration.script (.rename command.name new) ∉ registrations) →
    after.systemCommand? command.name = some ⟨command.name, .builtin command⟩

theorem system_foldl_administer
    (registrations : List (Registration σ)) :
    ∀ interpreter : Interpreter σ,
      (registrations.foldl administer interpreter).system = interpreter.system := by
  induction registrations with
  | nil => exact fun _ => rfl
  | cons registration rest inductionHypothesis =>
      exact fun interpreter =>
        (inductionHypothesis _).trans (interpreter.system_administer registration)

/--
Whatever is done to a new interpreter, it remembers its built-in commands.  The functions under the
names of built-in commands are looked up where they were at the start.
-/
theorem StartsWithBuiltins.remembersBuiltins
    (starts : interpreter.StartsWithBuiltins)
    (registrations : List (Registration σ)) :
    interpreter.RemembersBuiltins registrations (registrations.foldl administer interpreter) := by
  have sameSystem := system_foldl_administer registrations interpreter
  have looksUp : ∀ {name id}, interpreter.system.get? name = some id →
      (registrations.foldl administer interpreter).systemCommand? name =
        (registrations.foldl administer interpreter).function? id := fun remembered => by
    rw [systemCommand?, sameSystem, remembered, Option.bind_some]
  constructor
  case system => exact sameSystem
  case absent =>
    intro name isNone
    rw [systemCommand?, sameSystem]
    cases remembered : interpreter.system.get? name with
    | none => rfl
    | some id =>
        obtain ⟨command, isName⟩ := starts.only name id remembered
        exact absurd isName (isNone command)
  case present =>
    intro command
    obtain ⟨id, found, isFunction⟩ := starts.builtins command
    have remembered : interpreter.system.get? command.name = some id := starts.remembers ▸ found
    obtain ⟨title, last, isThere⟩ :=
      exists_lastFound starts.inOrder found isFunction registrations
    refine ⟨id, title, sameSystem ▸ remembered, (looksUp remembered).trans isThere, fun name => ?_⟩
    exact ⟨fun isName => isName ▸ last, last.unique starts.inOrder⟩
  case kept =>
    intro command unrenamed
    obtain ⟨id, found, isFunction⟩ := starts.builtins command
    rw [looksUp (starts.remembers ▸ found)]
    exact function?_of_unrenamed registrations starts.inOrder isFunction unrenamed

theorem RemembersBuiltins.of_same
    {after other : Interpreter σ}
    (remembers : interpreter.RemembersBuiltins registrations after)
    (same : after.SameCommands other) :
    interpreter.RemembersBuiltins registrations other := by
  have looksUp : ∀ name, other.systemCommand? name = after.systemCommand? name := fun name => by
    have sameFunctions : other.function? = after.function? := by
      funext id
      rw [function?, function?, same.functions]
    rw [systemCommand?, systemCommand?, same.system, sameFunctions]
  constructor
  case system => exact same.system.symm.trans remembers.system
  case absent => exact fun name isNone => (looksUp name).trans (remembers.absent name isNone)
  case present =>
    intro command
    rw [looksUp, ← same.system]
    exact remembers.present command
  case kept => exact fun command unrenamed => (looksUp _).trans (remembers.kept command unrenamed)

end Interpreter

/-! ## Runs -/

namespace Eval

/--
Whatever is done to the commands of a configured interpreter, and whatever its host and its scripts
do with it, it remembers the built-in commands that it started with and no other ones; of these at
most the names change, to the last ones under which they were found as commands.
-/
theorem system_commands_change_names_only
    {configuration : Configuration}
    {callbacks : Callbacks σ}
    {interpreter : Interpreter σ}
    (configured : configuration.interpreter callbacks = .ok interpreter) :
    (∀ registrations, interpreter.RemembersBuiltins registrations
      (registrations.foldl Interpreter.administer interpreter)) ∧
      ∀ (world : World σ) (machine : Machine σ),
        Relation.ReflTransGen Machine.HostStep ⟨interpreter, world⟩ machine →
        ∃ registrations,
          (registrations.foldl Interpreter.administer interpreter).SameCommands
            machine.interpreter ∧
          interpreter.RemembersBuiltins registrations machine.interpreter := by
  have starts := Interpreter.StartsWithBuiltins.of_configuration configured
  refine ⟨starts.remembersBuiltins, fun world machine steps => ?_⟩
  obtain ⟨registrations, same⟩ := Machine.administered_of_steps steps starts.inOrder
  exact ⟨registrations, same, (starts.remembersBuiltins registrations).of_same same⟩

/-! ## A built-in command under another name -/

/-- A machine on which a script has renamed `print`. -/
def renamedPrinting : Machine Unit :=
  ((⟨.fresh {} {}, { host := () }⟩ : Machine Unit).perform
    (evaluateIn (evaluate 9) .background (Text.ofString "rename print p"))).2

theorem renamedPrinting_of_steps :
    Relation.ReflTransGen Machine.HostStep
      (⟨.fresh {} {}, { host := () }⟩ : Machine Unit) renamedPrinting :=
  .single (.evaluated 9 .background (Text.ofString "rename print p"))

/-- The interpreter still remembers `print`, and `set` with its name. -/
theorem system_commands_change_names_only_renamed :
    ({} : Configuration).interpreter ({} : Callbacks Unit) = .ok (.fresh {} {}) ∧
      renamedPrinting.interpreter.systemCommand? (Text.ofString "p") = none ∧
      ∃ title, renamedPrinting.interpreter.systemCommand? (Text.ofString "print") =
        some ⟨title, .builtin .print⟩ := by
  have configured : ({} : Configuration).interpreter ({} : Callbacks Unit) =
      .ok (.fresh {} {}) := rfl
  obtain ⟨registrations, -, remembers⟩ := (system_commands_change_names_only configured).2
    { host := () } renamedPrinting renamedPrinting_of_steps
  obtain ⟨id, title, -, isThere, -⟩ := remembers.present .print
  have isNone : ∀ command : Builtin, command.name ≠ Text.ofString "p" := fun command => by
    cases command <;> decide
  exact ⟨configured, remembers.absent _ isNone, title, isThere⟩

/-- What a script renames is remembered with its new name. -/
theorem renamed_system_command_loses_name :
    (renamedPrinting.interpreter.systemCommand? (Text.ofString "print")).map
        (fun function => (function.name, function.definition.isNative)) =
      some (Text.ofString "p", true) := by
  decide +kernel

end Eval

end LittleScript
