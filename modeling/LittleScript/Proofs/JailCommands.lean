import LittleScript.Proofs.CommandTables
import LittleScript.Proofs.SealedJail

namespace LittleScript.Eval

/-!
# The commands of a jail

Unless a jail is clean, it is given the commands of the host: native ones that are not where the
system of its parent has them.  Where the host has registered none, these are the built-in commands
that scripts have moved to other names.  While there are none of these either, it does not matter
whether a jail is clean.
-/

open LittleScript.Interpreter (Operated Unregistered BuiltinsUnrenamed)

variable {σ α : Type} {parent : Interpreter σ}

/-! ## Tables of commands -/

/-- A clean jail has exactly the built-in commands, each under its name. -/
theorem definition?_cleanJail
    (parent : Interpreter σ)
    {name : Text}
    {definition : Definition σ} :
    (jailInterpreter parent true).definition? name = some definition ↔
      ∃ command : Builtin, command.name = name ∧ definition = .builtin command :=
  Interpreter.definition?_fresh _ _

/-- Other jails differ from it where something is taken for a command of the host. -/
theorem definition?_jail_eq
    (unregistered : parent.Unregistered)
    (name : Text) :
    (jailInterpreter parent false).definition? name =
      if name ∈ parent.hostCommands.map Function.name then parent.definition? name
      else (jailInterpreter parent true).definition? name := by
  have agree : ∀ function ∈ parent.hostCommands, function.name = name →
      some function.definition = parent.definition? name := by
    rintro function member rfl
    rw [Interpreter.definition?, (unregistered.mem_hostCommands.mp member).1, Option.map_some]
  exact Interpreter.definition?_foldl_define Function.name Function.definition
    parent.hostCommands agree (Unregistered.fresh _ _).named

/-- In them a name means the built-in command that the parent has there, or else its own one. -/
theorem definition?_jail
    (unregistered : parent.Unregistered)
    {name : Text}
    {definition : Definition σ} :
    (jailInterpreter parent false).definition? name = some definition ↔
      ∃ command : Builtin, definition = .builtin command ∧
        (parent.definition? name = some (.builtin command) ∨
          command.name = name ∧ ∀ other, parent.definition? name ≠ some (.builtin other)) := by
  rw [definition?_jail_eq unregistered]
  by_cases taken : name ∈ parent.hostCommands.map Function.name
  case pos =>
    obtain ⟨moved, defined, -⟩ := unregistered.mem_map_hostCommands.mp taken
    rw [if_pos taken, defined]
    constructor
    · intro same
      exact ⟨moved, (Option.some.inj same).symm, .inl rfl⟩
    · rintro ⟨command, rfl, same | ⟨-, none⟩⟩
      · exact same
      · exact absurd rfl (none moved)
  case neg =>
    have unmoved : ∀ {command}, parent.definition? name = some (.builtin command) →
        command.name = name := fun {command} defined =>
      Classical.byContradiction fun differs =>
        taken (unregistered.mem_map_hostCommands.mpr ⟨command, defined, differs⟩)
    rw [if_neg taken, definition?_cleanJail]
    constructor
    · rintro ⟨command, isName, rfl⟩
      refine ⟨command, rfl, ?_⟩
      by_cases isThere : ∃ other, parent.definition? name = some (.builtin other)
      · obtain ⟨other, defined⟩ := isThere
        rw [Interpreter.eq_of_name_eq (isName.trans (unmoved defined).symm)]
        exact .inl defined
      · exact .inr ⟨isName, fun other defined => isThere ⟨other, defined⟩⟩
    · rintro ⟨command, rfl, defined | ⟨isName, -⟩⟩
      · exact ⟨command, unmoved defined, rfl⟩
      · exact ⟨command, isName, rfl⟩

/-- Without renamed built-in commands there is one kind of jail. -/
theorem jailInterpreter_of_unrenamed
    (unregistered : parent.Unregistered)
    (unrenamed : parent.BuiltinsUnrenamed)
    (clean : Bool) :
    jailInterpreter parent clean = jailInterpreter parent true := by
  cases clean with
  | true => rfl
  | false =>
      simp only [jailInterpreter, unregistered.hostCommands_eq_nil_iff.mpr unrenamed,
        List.foldl_nil, Bool.false_eq_true, if_false, if_true]

/-- All jails have the same commands just when no built-in command is renamed. -/
theorem definition?_jail_eq_clean_iff
    (unregistered : parent.Unregistered) :
    (∀ name, (jailInterpreter parent false).definition? name =
        (jailInterpreter parent true).definition? name) ↔
      parent.BuiltinsUnrenamed := by
  constructor
  · intro same name command defined
    have there : (jailInterpreter parent false).definition? name = some (.builtin command) :=
      (definition?_jail unregistered).mpr ⟨command, rfl, .inl defined⟩
    rw [same, definition?_cleanJail] at there
    obtain ⟨other, isName, sameDefinition⟩ := there
    cases sameDefinition
    exact isName
  · intro unrenamed name
    rw [jailInterpreter_of_unrenamed unregistered unrenamed]

/-! ## Evaluations -/

/-- Output that does not hang on what was logged before. -/
def HeedsNoLog (callbacks : Callbacks σ) : Prop :=
  ∀ records, ({ write := callbacks.write } : Callbacks σ).Heedless { records }

/-- If its output does not heed the log, a jail ends as with nothing but itself in the log. -/
theorem jailEvaluate_unlogged
    (free : parent.HostFree)
    (heedsNoLog : HeedsNoLog parent.callbacks)
    (fuel : Nat)
    (code : Text)
    (clean : Bool)
    (world : World σ) :
    jailEvaluate (evaluate fuel) code clean ⟨parent, world⟩ =
      resultSince { records := jailRecord clean :: world.records }
        (reporting (onInterpreter (jailInterpreter parent clean)
            (evaluateIn (evaluate fuel) parent.context code))
          ⟨parent, { world with records := [] }⟩) := by
  let past : Past σ := { records := jailRecord clean :: world.records }
  have start : Machine.mk parent (world.record (jailRecord clean)) =
      Machine.since ⟨parent, { world with records := [] }⟩ past := by
    simp only [Machine.since, World.since, World.record, past, List.append_nil, List.nil_append,
      UInt64.add_zero, id]
  have held : (Scope.serving (heedless past)).holds
      (jailMachine clean ⟨parent, { world with records := [] }⟩).interpreter :=
    holds_jailMachine_of_output (free.jail clean) (heedsNoLog _)
  have evaluates := evaluate_later rfl fuel code true held
  have reports : reporting (inJail (evaluate fuel) clean code)
      (Machine.since ⟨parent, { world with records := [] }⟩ past) = _ :=
    (Later.inJail clean code evaluates).reporting
  rw [← start] at reports
  exact reports

/-- Without renamed built-in commands all jails end alike, and only the record of them differs. -/
theorem jailEvaluate_of_unrenamed
    (unregistered : parent.Unregistered)
    (unrenamed : parent.BuiltinsUnrenamed)
    (heedsNoLog : HeedsNoLog parent.callbacks)
    (fuel : Nat)
    (code : Text)
    (world : World σ) :
    ∃ ended, ∀ clean, jailEvaluate (evaluate fuel) code clean ⟨parent, world⟩ =
      resultSince { records := jailRecord clean :: world.records } ended := by
  refine ⟨reporting (onInterpreter (jailInterpreter parent true)
    (evaluateIn (evaluate fuel) parent.context code)) ⟨parent, { world with records := [] }⟩,
    fun clean => ?_⟩
  rw [jailEvaluate_unlogged unregistered.hostFree heedsNoLog,
    jailInterpreter_of_unrenamed unregistered unrenamed]

/-- The arguments with which `jaileval` evaluates code in a jail. -/
def jailArguments (clean : Bool) (code : Text) : List Text :=
  if clean then [Command.cleanWord, code] else [code]

/-- The command replies with the value of the jail. -/
theorem jailed_eq
    (run : Run σ)
    (clean : Bool)
    (code : Text) :
    Command.jailed run (jailArguments clean code) =
      jailEvaluate run code clean >>= fun value => pure (.value value) := by
  cases clean <;> rfl

theorem jailed_of_unrenamed
    (unregistered : parent.Unregistered)
    (unrenamed : parent.BuiltinsUnrenamed)
    (heedsNoLog : HeedsNoLog parent.callbacks)
    (fuel : Nat)
    (code : Text)
    (world : World σ) :
    ∃ ended, ∀ clean,
      Command.jailed (evaluate fuel) (jailArguments clean code) ⟨parent, world⟩ =
        resultSince { records := jailRecord clean :: world.records } ended := by
  obtain ⟨ended, alike⟩ :=
    jailEvaluate_of_unrenamed unregistered unrenamed heedsNoLog fuel code world
  cases ended with
  | ok value after =>
      refine ⟨.ok (.value value) after, fun clean => ?_⟩
      rw [jailed_eq, bind_of_ok (alike clean)]
      rfl
  | error stop after =>
      refine ⟨.error stop after, fun clean => ?_⟩
      rw [jailed_eq, bind_of_error (alike clean)]
      rfl

/--
On an interpreter whose host has registered no command, scripts define functions and rename and
delete commands, and no evaluation does anything else to them.  A clean jail has exactly the
built-in commands.  Another jail has, under a name, the built-in command that its parent has there,
or else the one of that name.  So jails have the same commands just when no built-in command goes
by another name than its own, and then they also end alike, whatever their code.
-/
theorem jail_takes_renamed_builtins
    (limits : Limits)
    (callbacks : Callbacks σ)
    (parent : Interpreter σ)
    (operated : (Interpreter.fresh limits callbacks).Operated parent) :
    (∀ fuel code ownResult world,
      (Interpreter.fresh limits callbacks).Operated
        (final (evaluate fuel code ownResult) ⟨parent, world⟩).interpreter) ∧
      (∀ name definition,
        (jailInterpreter parent true).definition? name = some definition ↔
          ∃ command : Builtin, command.name = name ∧ definition = .builtin command) ∧
      (∀ name definition,
        (jailInterpreter parent false).definition? name = some definition ↔
          ∃ command : Builtin, definition = .builtin command ∧
            (parent.definition? name = some (.builtin command) ∨
              command.name = name ∧ ∀ other, parent.definition? name ≠ some (.builtin other))) ∧
      ((∀ name, (jailInterpreter parent false).definition? name =
          (jailInterpreter parent true).definition? name) ↔
        parent.BuiltinsUnrenamed) ∧
      (parent.BuiltinsUnrenamed →
        HeedsNoLog parent.callbacks →
        ∀ fuel code world, ∃ ended, ∀ clean,
          Command.jailed (evaluate fuel) (jailArguments clean code) ⟨parent, world⟩ =
            resultSince { records := jailRecord clean :: world.records } ended) := by
  have unregistered : parent.Unregistered := (Unregistered.fresh limits callbacks).operated operated
  refine ⟨fun fuel code ownResult world => ?_, fun name definition => definition?_cleanJail parent,
    fun name definition => definition?_jail unregistered,
    definition?_jail_eq_clean_iff unregistered,
    fun unrenamed heedsNoLog => jailed_of_unrenamed unregistered unrenamed heedsNoLog⟩
  exact operated.trans (operated_lasting.evaluate fuel code ownResult ⟨parent, world⟩
    unregistered.hostFree).2

/-! ## Parents that have been used -/

/-- What scripts do where they define `set` anew and a function of their own, and delete `print`. -/
def trimming : List Operation :=
  [.define (Text.ofString "set") [] [],
    .define (Text.ofString "double") [Text.ofString "x"] (Text.ofString "expr $x * 2"),
    .rename (Text.ofString "double") (Text.ofString "twice"),
    .rename (Text.ofString "print") []]

/-- An interpreter after that. -/
def trimmed : Interpreter Unit :=
  trimming.foldl Interpreter.operate (.fresh {} {})

theorem trimmed_silent :
    trimmed.callbacks.write = none := by
  rw [trimmed, Interpreter.callbacks_foldl_operate]
  rfl

theorem trimmed_operated :
    (Interpreter.fresh {} {}).Operated trimmed :=
  ⟨trimming, ⟨rfl, rfl, rfl⟩⟩

theorem trimmed_unrenamed :
    trimmed.BuiltinsUnrenamed := by
  have unregistered : trimmed.Unregistered := (Unregistered.fresh {} {}).operated trimmed_operated
  exact unregistered.hostCommands_eq_nil_iff.mp (List.isEmpty_iff.mp (by decide +kernel))

/-- What differs in the log only yields the same. -/
theorem yields_eq_of_records
    {action other : Eval σ α}
    {machine : Machine σ}
    {records recordsThere : List LogEntry}
    {ended : EStateM.Result Stop (Machine σ) α}
    (ends : action machine = resultSince { records } ended)
    (endsThere : other machine = resultSince { records := recordsThere } ended) :
    yields action machine = yields other machine := by
  rw [yields, yields, Machine.perform, Machine.perform, ends, endsThere]
  cases ended <;> rfl

/-- A jail prints, though its parent has deleted the command for it. -/
theorem jail_takes_renamed_builtins_trimmed :
    (jailInterpreter trimmed false).definition? (Text.ofString "print") =
        (jailInterpreter trimmed true).definition? (Text.ofString "print") ∧
      (yields (Command.jailed (evaluate 9) [printing]) ⟨trimmed, { host := () }⟩).2 =
        [Text.ofString "2\n"] := by
  obtain ⟨-, -, -, tables, endings⟩ :=
    jail_takes_renamed_builtins {} {} trimmed trimmed_operated
  have clean : (yields (Command.jailed (evaluate 9) [Command.cleanWord, printing])
      ⟨trimmed, { host := () }⟩).2 = [Text.ofString "2\n"] := by
    decide +kernel
  obtain ⟨ended, alike⟩ := endings trimmed_unrenamed
    (fun _ => (blindOutput_of_silent trimmed_silent).heedless (.inl trimmed_silent))
    9 printing { host := () }
  have same := yields_eq_of_records (alike false) (alike true)
  exact ⟨tables.mpr trimmed_unrenamed _, (congrArg Prod.snd same).trans clean⟩

/-- An interpreter on which a script has renamed `print`. -/
def renamedPrint : Interpreter Unit :=
  (Interpreter.fresh {} {}).operate (.rename (Text.ofString "print") (Text.ofString "p"))

/-- Code that prints with the renamed command. -/
def greeting : Text :=
  Text.ofString "p hello"

/-- A renamed built-in command enters a jail like a command of the host. -/
theorem renamed_builtin_enters_jail :
    ((jailInterpreter renamedPrint false).command? (Text.ofString "p")).isSome = true ∧
      ((jailInterpreter renamedPrint true).command? (Text.ofString "p")).isNone = true ∧
      (yields (Command.jailed (evaluate 9) [greeting]) ⟨renamedPrint, { host := () }⟩).2 =
        [Text.ofString "hello\n"] ∧
      (yields (Command.jailed (evaluate 9) [Command.cleanWord, greeting])
          ⟨renamedPrint, { host := () }⟩).2 = [] := by
  decide +kernel

end LittleScript.Eval
