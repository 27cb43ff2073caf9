import LittleScript.Proofs.IntegerText
import LittleScript.Proofs.ListCommands
import LittleScript.Proofs.Registrations
import Mathlib.Data.List.Nodup
import Mathlib.Data.List.Perm.Subperm
import Mathlib.Data.Nat.Find
import Mathlib.Order.Bounds.Defs

namespace LittleScript

/-!
# Names for functions without one

A numbered name has its number between fixed marks, so that different numbers make different names,
however many digits they have.  Of the finitely many commands and variables there are, none has one
of the first few numbered names; the first such name is found.  A function that is defined without a
name is given one for anonymous functions.  It is looked for before the parameters of the function
are read: whatever that reading defines under the same name is replaced, and nothing else ever is.
-/

variable {σ : Type}

/-! ## Numbered names -/

/-- Numbers are told apart by their padded digits, also where these are more than the width. -/
theorem Text.ofNatPadded_injective
    (width : Nat) :
    Function.Injective (Text.ofNatPadded width) := by
  intro number other same
  have spelled := Integer.natural?_ofNatPadded width number
  rw [same, Integer.natural?_ofNatPadded] at spelled
  exact (Option.some.inj spelled).symm

/-- Of different names that are more than a list has, the list lacks one. -/
theorem exists_not_mem_of_injective
    {name : Nat → Text}
    (injective : Function.Injective name)
    (taken : List Text) :
    ∃ number ≤ taken.length, name number ∉ taken := by
  by_contra! allTaken
  have subset : (List.range (taken.length + 1)).map name ⊆ taken := by
    intro text member
    obtain ⟨number, inside, rfl⟩ := List.mem_map.mp member
    exact allTaken number (Nat.le_of_lt_succ (List.mem_range.mp inside))
  have distinct : ((List.range (taken.length + 1)).map name).Nodup :=
    List.Nodup.map injective List.nodup_range
  have fewer := (List.subperm_of_subset distinct subset).length_le
  simp at fewer

namespace Interpreter

/-- Numbered names of one part are told apart by their numbers. -/
theorem numberedName_injective
    (part : Text) :
    Function.Injective (numberedName part) := by
  intro number other same
  simp only [numberedName, List.append_assoc, List.append_cancel_left_eq] at same
  exact Text.ofNatPadded_injective 9 (List.append_cancel_right same)

/-- Neither a command nor a visible variable has the name. -/
def Unused (interpreter : Interpreter σ) (name : Text) : Prop :=
  interpreter.commands.get? name = none ∧ interpreter.visible? name = none

theorem isUnused_iff
    (interpreter : Interpreter σ)
    (name : Text) :
    interpreter.isUnused name = true ↔ interpreter.Unused name := by
  simp [isUnused, Unused, Table.contains]

/-- The names that commands and visible variables have. -/
def takenNames (interpreter : Interpreter σ) : List Text :=
  interpreter.commands.names ++ interpreter.currentFrame.bindings.names ++
    (interpreter.frame rootFrame).bindings.names

theorem length_takenNames
    (interpreter : Interpreter σ) :
    interpreter.takenNames.length = interpreter.commands.size +
      interpreter.currentFrame.bindings.size + (interpreter.frame rootFrame).bindings.size := by
  simp [takenNames, Table.names, Table.size, Nat.add_assoc]

/-- A name that is not taken is unused. -/
theorem unused_of_not_taken
    {interpreter : Interpreter σ}
    {name : Text}
    (notTaken : name ∉ interpreter.takenNames) :
    interpreter.Unused name := by
  have absent : ∀ {α : Type} {table : Table α}, name ∉ table.names → table.get? name = none :=
    fun notThere => Option.eq_none_iff_forall_ne_some.mpr fun _ found =>
      notThere (Table.mem_names_of_get? found)
  simp only [takenNames, List.mem_append, not_or] at notTaken
  obtain ⟨⟨notCommand, notLocal⟩, notGlobal⟩ := notTaken
  refine ⟨absent notCommand, ?_⟩
  rw [visible?, lookup?, show (interpreter.frame interpreter.current).bindings.get? name = none from
    absent notLocal, absent notGlobal]
  rfl

/-- The search stops at the first unused name, if its number is within the bound. -/
theorem unusedFrom_eq
    (interpreter : Interpreter σ)
    (part : Text)
    {found : Nat}
    (unused : interpreter.Unused (numberedName part found))
    (first : ∀ number < found, ¬interpreter.Unused (numberedName part number)) :
    ∀ bound number, number ≤ found → found ≤ number + bound →
      interpreter.unusedFrom part bound number = numberedName part found := by
  intro bound
  induction bound with
  | zero =>
      intro number reached within
      rw [Nat.le_antisymm reached within]
      rfl
  | succ bound inductionHypothesis =>
      intro number reached within
      rw [unusedFrom]
      split
      case isTrue isUnused =>
        have notBefore : ¬number < found := fun before =>
          first number before ((interpreter.isUnused_iff _).mp isUnused)
        rw [Nat.le_antisymm reached (Nat.not_lt.mp notBefore)]
      case isFalse isUsed =>
        have notHere : number ≠ found := fun here =>
          isUsed ((interpreter.isUnused_iff _).mpr (here ▸ unused))
        exact inductionHypothesis (number + 1) (Nat.lt_of_le_of_ne reached notHere)
          (by rwa [Nat.add_right_comm])

/--
The name that is found has the least number whose name is unused, which is at most the number of
names that are taken.
-/
theorem unusedName_eq
    (interpreter : Interpreter σ)
    (part : Text) :
    ∃ number ≤ interpreter.commands.size + interpreter.currentFrame.bindings.size +
        (interpreter.frame rootFrame).bindings.size,
      interpreter.unusedName part = numberedName part number ∧
        IsLeast { number | interpreter.Unused (numberedName part number) } number := by
  classical
  obtain ⟨free, within, notTaken⟩ :=
    exists_not_mem_of_injective (numberedName_injective part) interpreter.takenNames
  have someUnused : ∃ number, interpreter.Unused (numberedName part number) :=
    ⟨free, unused_of_not_taken notTaken⟩
  rw [length_takenNames] at within
  have least : Nat.find someUnused ≤ free :=
    Nat.find_min' someUnused (unused_of_not_taken notTaken)
  refine ⟨Nat.find someUnused, Nat.le_trans least within, ?_, Nat.find_spec someUnused,
    fun number unused => Nat.find_min' someUnused unused⟩
  exact interpreter.unusedFrom_eq part (Nat.find_spec someUnused)
    (fun number before => Nat.find_min someUnused before) _ 0 (Nat.zero_le _) (by omega)

/-! ## Commands that are kept -/

/-- Every name that means a function still means it, and the function is what it was. -/
def KeepsCommands (before after : Interpreter σ) : Prop :=
  ∀ name id function, before.commands.get? name = some id → before.function? id = some function →
    after.commands.get? name = some id ∧ after.function? id = some function

/-- Defining a function keeps the commands just when none has its name. -/
theorem keepsCommands_define
    (interpreter : Interpreter σ)
    (name : Text)
    (definition : Definition σ) :
    interpreter.KeepsCommands (interpreter.define name definition) ↔
      interpreter.command? name = none := by
  constructor
  · intro keeps
    refine Option.eq_none_iff_forall_ne_some.mpr fun function known => ?_
    obtain ⟨id, isCommand, isFunction⟩ := Option.bind_eq_some_iff.mp known
    obtain ⟨found, -⟩ := keeps name id function isCommand isFunction
    rw [get?_define, if_pos rfl] at found
    exact ne_size_of_function? isFunction (Option.some.inj found).symm
  · intro unknown other id function isCommand isFunction
    have differs : other ≠ name := by
      rintro rfl
      rw [command?_of_get? isCommand, isFunction] at unknown
      cases unknown
    rw [get?_define, if_neg differs, function?_define, if_neg (ne_size_of_function? isFunction)]
    exact ⟨isCommand, isFunction⟩

end Interpreter

/-! ## Commands that only become more -/

/-- An operation that takes no name away. -/
def Registration.Defines : Registration σ → Prop
  | .script (.define _ _ _) => True
  | .register _ _ => True
  | _ => False

namespace Interpreter

/-- Nothing is done to the commands but to define some, so that none is deleted or renamed. -/
def Extends (before after : Interpreter σ) : Prop :=
  ∃ registrations : List (Registration σ), (∀ step ∈ registrations, step.Defines) ∧
    (registrations.foldl administer before).SameCommands after

/-- A name that has a command keeps having one. -/
theorem Extends.isSome_get?
    {before after : Interpreter σ}
    (extended : before.Extends after)
    {name : Text}
    (known : (before.commands.get? name).isSome) :
    (after.commands.get? name).isSome := by
  obtain ⟨registrations, define, same⟩ := extended
  rw [← same.commands]
  clear same
  induction registrations generalizing before with
  | nil =>
      exact known
  | cons registration rest inductionHypothesis =>
      have stillKnown : ∀ title definition,
          ((before.define title definition).commands.get? name).isSome := by
        intro title definition
        rw [get?_define]
        split
        · rfl
        · exact known
      refine inductionHypothesis ?_ fun step member => define step (List.mem_cons_of_mem _ member)
      have defines := define registration List.mem_cons_self
      cases registration with
      | register title command => exact stillKnown title _
      | delete title => cases defines
      | script operation =>
          cases operation with
          | define title parameters body => exact stillKnown title _
          | rename old new => cases defines

/-- A name that has no command had none. -/
theorem Extends.absent_before
    {before after : Interpreter σ}
    (extended : before.Extends after)
    {name : Text}
    (absent : after.commands.get? name = none) :
    before.commands.get? name = none := by
  refine Option.eq_none_iff_forall_ne_some.mpr fun id known => ?_
  have stillKnown := extended.isSome_get? (Option.isSome_of_eq_some known)
  rw [absent] at stillKnown
  cases stillKnown

end Interpreter

namespace Eval

/-! ## Calls that define functions without a name -/

/-- How a call that gives a function no name comes to its parameters, and the body it gives. -/
inductive Unnamed (run : Run σ) : List Text → Eval σ (List Text) → Text → Prop where
  | gathering (body : Text) :
      Unnamed run [body] (pure [restParameter]) body
  | listed (parameters body : Text) :
      Unnamed run [parameters, body] (readList run parameters) body

/-- The name that a function gets which is given none. -/
def nameForUnnamed (interpreter : Interpreter σ) : Text :=
  interpreter.unusedName (Text.ofString "anonymous-function")

/-- The name is found first, then the parameters are read, and then the function is defined. -/
theorem Unnamed.callBuiltin_eq
    {run : Run σ}
    {arguments : List Text}
    {reading : Eval σ (List Text)}
    {body : Text}
    (unnamed : Unnamed run arguments reading body)
    (rounds : Nat)
    (machine : Machine σ) :
    callBuiltin run rounds .defineFunction arguments machine =
      (reading >>= fun parameters =>
        Command.define (nameForUnnamed machine.interpreter) parameters body) machine := by
  cases unnamed with
  | gathering body => rfl
  | listed parameters body => rfl

/-- The machine behind the definition of a function. -/
def defining (name : Text) (parameters : List Text) (body : Text) (machine : Machine σ) :
    Machine σ :=
  { machine with interpreter := machine.interpreter.define name (.script parameters body) }

/--
What a call does that defines a function without a name: it takes an unused name, and defines the
function once its parameters are read.  It replaces a command just when the reading of the
parameters has left one under that name, and never one that was there before.
-/
structure DefinesUnnamed (run : Run σ) (rounds : Nat) (arguments : List Text)
    (reading : Eval σ (List Text)) (body : Text) (machine : Machine σ) : Prop where
  unused : machine.interpreter.Unused (nameForUnnamed machine.interpreter)
  defines : ∀ parameters read, reading machine = .ok parameters read →
    callBuiltin run rounds .defineFunction arguments machine =
      .ok (.value (nameForUnnamed machine.interpreter))
        (defining (nameForUnnamed machine.interpreter) parameters body read)
  keeps : ∀ parameters read, reading machine = .ok parameters read →
    (read.interpreter.KeepsCommands
        (defining (nameForUnnamed machine.interpreter) parameters body read).interpreter ↔
      read.interpreter.command? (nameForUnnamed machine.interpreter) = none)
  spares : ∀ parameters read, reading machine = .ok parameters read →
    ∀ name, (machine.interpreter.commands.get? name).isSome →
      (defining (nameForUnnamed machine.interpreter) parameters body
        read).interpreter.commands.get? name = read.interpreter.commands.get? name
  stops : ∀ stop read, reading machine = .error stop read →
    callBuiltin run rounds .defineFunction arguments machine = .error stop read

theorem Unnamed.defines
    {run : Run σ}
    {arguments : List Text}
    {reading : Eval σ (List Text)}
    {body : Text}
    (unnamed : Unnamed run arguments reading body)
    (rounds : Nat)
    (machine : Machine σ) :
    DefinesUnnamed run rounds arguments reading body machine := by
  have unused : machine.interpreter.Unused (nameForUnnamed machine.interpreter) := by
    obtain ⟨number, -, isName, unused, -⟩ :=
      machine.interpreter.unusedName_eq (Text.ofString "anonymous-function")
    rw [nameForUnnamed, isName]
    exact unused
  constructor
  case unused => exact unused
  case defines =>
    intro parameters read ran
    rw [unnamed.callBuiltin_eq, bind_of_ok ran]
    rfl
  case keeps =>
    exact fun parameters read _ => Interpreter.keepsCommands_define read.interpreter _ _
  case spares =>
    intro parameters read _ name known
    have differs : name ≠ nameForUnnamed machine.interpreter := by
      rintro rfl
      rw [unused.1] at known
      cases known
    rw [defining, Interpreter.get?_define, if_neg differs]
  case stops =>
    intro stop read ran
    rw [unnamed.callBuiltin_eq, bind_of_error ran]

/-- Where reading the parameters does nothing, no command is replaced. -/
theorem DefinesUnnamed.keepsCommands
    {run : Run σ}
    {rounds : Nat}
    {arguments parameters : List Text}
    {reading : Eval σ (List Text)}
    {body : Text}
    {machine : Machine σ}
    (defines : DefinesUnnamed run rounds arguments reading body machine)
    (read : reading machine = .ok parameters machine) :
    ∃ after, callBuiltin run rounds .defineFunction arguments machine =
        .ok (.value (nameForUnnamed machine.interpreter)) after ∧
      machine.interpreter.KeepsCommands after.interpreter := by
  refine ⟨_, defines.defines parameters machine read,
    (defines.keeps parameters machine read).mpr ?_⟩
  rw [Interpreter.command?, defines.unused.1]
  rfl

/--
Calls that define functions without a name, each after the end of the one before, and the names that
they give.  Whatever runs meanwhile and while the parameters are read, it deletes and renames no
command.
-/
inductive CallsUnnamed : Machine σ → List Text → Machine σ → Prop where
  | done (machine : Machine σ) :
      CallsUnnamed machine [] machine
  | meanwhile {machine later last : Machine σ} {names : List Text} :
      machine.interpreter.Extends later.interpreter →
      CallsUnnamed later names last →
      CallsUnnamed machine names last
  | call {run : Run σ} {rounds : Nat} {arguments : List Text} {reading : Eval σ (List Text)}
      {body name : Text} {machine after last : Machine σ} {names : List Text} :
      Unnamed run arguments reading body →
      callBuiltin run rounds .defineFunction arguments machine = .ok (.value name) after →
      machine.interpreter.Extends after.interpreter →
      CallsUnnamed after names last →
      CallsUnnamed machine (name :: names) last

/-- A call gives its function a name that was unused before and is a command afterwards. -/
theorem Unnamed.name_of_called
    {run : Run σ}
    {rounds : Nat}
    {arguments : List Text}
    {reading : Eval σ (List Text)}
    {body name : Text}
    (unnamed : Unnamed run arguments reading body)
    {machine after : Machine σ}
    (called : callBuiltin run rounds .defineFunction arguments machine =
      .ok (.value name) after) :
    machine.interpreter.commands.get? name = none ∧
      (after.interpreter.commands.get? name).isSome := by
  have defines := unnamed.defines rounds machine
  cases ran : reading machine with
  | error stop read =>
      rw [defines.stops stop read ran] at called
      cases called
  | ok parameters read =>
      rw [defines.defines parameters read ran] at called
      cases called
      refine ⟨defines.unused.1, ?_⟩
      rw [defining, Interpreter.get?_define, if_pos rfl]
      rfl

namespace CallsUnnamed

variable {machine last : Machine σ} {names : List Text}

/-- A name that is a command stays one. -/
theorem isSome_get?
    (calls : CallsUnnamed machine names last)
    {name : Text}
    (known : (machine.interpreter.commands.get? name).isSome) :
    (last.interpreter.commands.get? name).isSome := by
  induction calls with
  | done machine => exact known
  | meanwhile extended _ inductionHypothesis =>
      exact inductionHypothesis (extended.isSome_get? known)
  | call _ _ extended _ inductionHypothesis =>
      exact inductionHypothesis (extended.isSome_get? known)

/-- The names are no commands before the calls, and commands afterwards. -/
theorem names_new
    (calls : CallsUnnamed machine names last) :
    ∀ name ∈ names, machine.interpreter.commands.get? name = none ∧
      (last.interpreter.commands.get? name).isSome := by
  induction calls with
  | done machine =>
      exact fun _ member => nomatch member
  | meanwhile extended _ inductionHypothesis =>
      intro name member
      obtain ⟨absent, present⟩ := inductionHypothesis name member
      exact ⟨extended.absent_before absent, present⟩
  | call unnamed called extended later inductionHypothesis =>
      intro name member
      rcases List.mem_cons.mp member with rfl | isLater
      · obtain ⟨absent, defined⟩ := unnamed.name_of_called called
        exact ⟨absent, later.isSome_get? defined⟩
      · obtain ⟨absent, present⟩ := inductionHypothesis name isLater
        exact ⟨extended.absent_before absent, present⟩

/-- No two calls give the same name. -/
theorem nodup
    (calls : CallsUnnamed machine names last) :
    names.Nodup := by
  induction calls with
  | done machine => exact .nil
  | meanwhile _ _ inductionHypothesis => exact inductionHypothesis
  | call unnamed called _ later inductionHypothesis =>
      refine List.nodup_cons.mpr ⟨fun again => ?_, inductionHypothesis⟩
      have defined := (unnamed.name_of_called called).2
      rw [(later.names_new _ again).1] at defined
      cases defined

end CallsUnnamed

/--
The name that is found for a part is the one with the least number that neither a command nor a
visible variable has, and the search for it takes at most as many steps as there are commands and
variables.  A function without a name gets such a name.  It replaces no command if it is given its
body only, or its parameters as a written list; and otherwise just those which the reading of its
parameters has put under that name.  The functions of calls that do not overlap get different names,
if no command is deleted or renamed meanwhile.
-/
theorem unnamed_functions_get_unused_names :
    (∀ (interpreter : Interpreter σ) (part : Text),
      ∃ number ≤ interpreter.commands.size + interpreter.currentFrame.bindings.size +
          (interpreter.frame rootFrame).bindings.size,
        interpreter.unusedName part = Interpreter.numberedName part number ∧
          IsLeast { number | interpreter.Unused (Interpreter.numberedName part number) } number) ∧
    (∀ (run : Run σ) (rounds : Nat) (machine : Machine σ),
      (∀ arguments reading body, Unnamed run arguments reading body →
        DefinesUnnamed run rounds arguments reading body machine) ∧
      (∀ body, ∃ after, callBuiltin run rounds .defineFunction [body] machine =
          .ok (.value (nameForUnnamed machine.interpreter)) after ∧
        machine.interpreter.KeepsCommands after.interpreter) ∧
      (machine.interpreter.error = none → ∀ parameters body, ∃ after,
        callBuiltin run rounds .defineFunction [ListText.write parameters, body] machine =
          .ok (.value (nameForUnnamed machine.interpreter)) after ∧
        machine.interpreter.KeepsCommands after.interpreter)) ∧
    ∀ (machine last : Machine σ) (names : List Text), CallsUnnamed machine names last →
      names.Nodup ∧ ∀ name ∈ names, machine.interpreter.commands.get? name = none ∧
        (last.interpreter.commands.get? name).isSome := by
  refine ⟨Interpreter.unusedName_eq, fun run rounds machine => ⟨?_, ?_, ?_⟩, ?_⟩
  · exact fun _ _ _ unnamed => unnamed.defines rounds machine
  · intro body
    exact ((Unnamed.gathering body).defines rounds machine).keepsCommands rfl
  · intro noError parameters body
    exact ((Unnamed.listed (ListText.write parameters) body).defines rounds machine).keepsCommands
      (readList_written run parameters noError)
  · exact fun machine last names calls => ⟨calls.nodup, calls.names_new⟩

/-! ## Look-alike names -/

/-- The name that anonymous functions get with a number. -/
def anonymousName (number : Nat) : Text :=
  Interpreter.numberedName (Text.ofString "anonymous-function") number

/-- A machine with a command and a variable that have the first two names. -/
def crowdedMachine : Machine Unit where
  interpreter :=
    (({} : Interpreter Unit).define (anonymousName 0) (.script [] [])).putVariable rootFrame
      (anonymousName 1) { name := anonymousName 1, owner := rootFrame, value := [] }
  world := { host := () }

/-- Two functions without a name get the next two names there. -/
theorem unnamed_functions_get_unused_names_crowded :
    ∃ after last,
      callBuiltin (evaluate 1) 1 .defineFunction [[0x61]] crowdedMachine =
        .ok (.value (anonymousName 2)) after ∧
      callBuiltin (evaluate 1) 1 .defineFunction [[0x78], [0x61]] after =
        .ok (.value (anonymousName 3)) last ∧
      crowdedMachine.interpreter.KeepsCommands after.interpreter ∧
      after.interpreter.KeepsCommands last.interpreter ∧
      [anonymousName 2, anonymousName 3].Nodup := by
  obtain ⟨-, calls, apart⟩ := unnamed_functions_get_unused_names (σ := Unit)
  let between := defining (anonymousName 2) [restParameter] [0x61] crowdedMachine
  let behind := defining (anonymousName 3) [[0x78]] [0x61] between
  have isFirst : nameForUnnamed crowdedMachine.interpreter = anonymousName 2 := by
    decide +kernel
  have isSecond : nameForUnnamed between.interpreter = anonymousName 3 := by
    decide +kernel
  have read : readList (evaluate 1) [0x78] between = .ok [[0x78]] between :=
    readList_written (evaluate 1) [[0x78]] rfl
  have first := (calls (evaluate 1) 1 crowdedMachine).1 _ _ _ (.gathering [0x61])
  have second := (calls (evaluate 1) 1 between).1 _ _ _ (.listed [0x78] [0x61])
  have firstCalled := first.defines _ _ rfl
  have firstKeeps := (first.keeps _ _ rfl).mpr
  have secondCalled := second.defines _ _ read
  have secondKeeps := (second.keeps _ _ read).mpr
  rw [isFirst] at firstCalled firstKeeps
  rw [isSecond] at secondCalled secondKeeps
  have distinct := (apart crowdedMachine behind [anonymousName 2, anonymousName 3]
    (.call (.gathering [0x61]) firstCalled
      ⟨[.script (.define (anonymousName 2) [restParameter] [0x61])], by simp [Registration.Defines],
        ⟨rfl, rfl, rfl⟩⟩
      (.call (.listed [0x78] [0x61]) secondCalled
        ⟨[.script (.define (anonymousName 3) [[0x78]] [0x61])], by simp [Registration.Defines],
          ⟨rfl, rfl, rfl⟩⟩
        (.done _)))).1
  exact ⟨between, behind, firstCalled, secondCalled, firstKeeps (by decide +kernel),
    secondKeeps (by decide +kernel), distinct⟩

/-- A function whose parameter is what the definition of another one returns. -/
def nestedFunctions : Text :=
  Text.ofString "func \x7b[func \x7bquote a\x7d]\x7d \x7bquote b\x7d"

/-- The machine behind the two definitions. -/
def nestedMachine : Machine Unit :=
  final (evaluate 4 nestedFunctions true) (Machine.start () {} {})

/--
The function that is defined while the parameters of another one are read is replaced by that one:
both get the same name, and there is one command more, not two.
-/
theorem nested_function_is_replaced :
    unfailed? (evaluate 4 nestedFunctions true) (Machine.start () {} {}) =
        some (anonymousName 0) ∧
      Command.scriptOf (nestedMachine.interpreter.command? (anonymousName 0)) =
        some ([anonymousName 0], Text.ofString "quote b") ∧
      nestedMachine.interpreter.functions.size =
        (Machine.start () {} {}).interpreter.functions.size + 2 ∧
      nestedMachine.interpreter.commands.size =
        (Machine.start () {} {}).interpreter.commands.size + 1 :=
  ⟨by decide +kernel, by decide +kernel, by decide +kernel, by decide +kernel⟩

end Eval

end LittleScript
