import LittleScript.Proofs.ExpressionTree
import LittleScript.Proofs.IntegerText
import LittleScript.Proofs.VariableReading

namespace LittleScript

/-!
# Counting up and down

The commands that count read an integer from the text of a variable, add a number to it or take it
away, and store the decimal text of the result where the variable is.  Integers wrap around in two's
complement, so counting up and counting down by one number undo each other for all integers: also
where the result wraps, and where the number is the least integer, which has no opposite.
-/

variable {σ : Type}

open Expression (wrap)

namespace Command

/-- The command that counts down, or the one that counts up. -/
def counter (down : Bool) : Builtin :=
  if down then .decrement else .increment

/-- The number by which the arguments behind the name tell to count: the first one, or else one. -/
def amountOf : List Text → Number
  | [] => .int 1
  | amount :: _ => amount.toNumber

/-- The integer to which one counts, wrapped around to 64 bits. -/
def counted (down : Bool) (value amount : Int64) : Int :=
  wrap (if down then value.toInt - amount.toInt else value.toInt + amount.toInt)

/-! ## Integers -/

/-- The integer of 64 bits to which one counts. -/
theorem counted_eq_toInt
    (down : Bool)
    (value amount : Int64) :
    counted down value amount = (if down then value - amount else value + amount).toInt := by
  cases down with
  | false => exact (Int64.toInt_add value amount).symm
  | true => exact (Int64.toInt_sub value amount).symm

/-- Counting back by the same number leads to where one was. -/
theorem counted_back
    (down : Bool)
    (value amount : Int64) :
    counted (!down) (if down then value - amount else value + amount) amount = value.toInt := by
  rw [counted_eq_toInt]
  cases down with
  | false => exact congrArg Int64.toInt (Int64.add_sub_cancel value amount)
  | true => exact congrArg Int64.toInt (Int64.sub_add_cancel value amount)

/-- The text of the integer to which one counts reads as that integer. -/
theorem toNumber_counted
    (down : Bool)
    (value amount : Int64) :
    (Text.ofInt (counted down value amount)).toNumber =
      .int (if down then value - amount else value + amount) := by
  rw [counted_eq_toInt]
  exact Text.toNumber_text _

/-- A number that is made from two integers is written as the integer to which one counts. -/
theorem text_adjusted
    (down : Bool)
    (value amount : Int64) :
    (adjusted down (.int value) (.int amount)).text = Text.ofInt (counted down value amount) := by
  rw [counted_eq_toInt]
  rfl

end Command

namespace Eval

open Command (amountOf counted counter)

/-! ## Variables that only hold their value -/

/-- A machine on which reading and assigning a variable has no effect on anything else. -/
structure Unattended (name : Text) (machine : Machine σ) : Prop where
  framed : machine.interpreter.WellFramed
  unasked : machine.interpreter.callbacks.getVariable = none
  unheard : machine.interpreter.callbacks.setVariable = none
  unwatched : ownWatch .visible name machine.interpreter = []

/-- A variable that has been assigned is what its name means. -/
theorem visible?_storingNamed
    {name : Text}
    (named : name ≠ [])
    (value : Text)
    {machine : Machine σ}
    (framed : machine.interpreter.WellFramed) :
    (storingNamed .visible name value machine).interpreter.visible? name =
      some (storedIn .visible name machine.interpreter,
        storedEntry .visible name value machine.interpreter) := by
  rw [storingNamed, if_neg named]
  exact Interpreter.visible?_putVariable (storedIn_lt_of_framed .visible name framed)
    (shows_storedIn (by simp)) _

/-- The value that has been assigned is the value of the variable. -/
theorem valueOf_storingNamed
    {name : Text}
    (named : name ≠ [])
    (value : Text)
    {machine : Machine σ}
    (framed : machine.interpreter.WellFramed) :
    (storingNamed .visible name value machine).interpreter.valueOf name = value := by
  rw [Interpreter.valueOf, visible?_storingNamed named value framed]
  exact storedEntry_value ..

/-- The value that is assigned last replaces the one before. -/
theorem storingNamed_storingNamed
    (name first second : Text)
    {machine : Machine σ}
    (framed : machine.interpreter.WellFramed) :
    storingNamed .visible name second (storingNamed .visible name first machine) =
      storingNamed .visible name second machine := by
  by_cases nameless : name = []
  · simp only [storingNamed, if_pos nameless]
  · have sameFrame : storedIn .visible name
        (storingNamed .visible name first machine).interpreter =
          storedIn .visible name machine.interpreter := by
      rw [storedIn_visible, visible?_storingNamed nameless first framed]
      rfl
    have sameEntry : storedEntry .visible name second
        (storingNamed .visible name first machine).interpreter =
          storedEntry .visible name second machine.interpreter := by
      have isOwner : owner .visible name (storingNamed .visible name first machine).interpreter =
          owner .visible name machine.interpreter := sameFrame
      have held := get?_storingNamed .visible name first framed
        (owner .visible name machine.interpreter) name
      rw [if_pos ⟨nameless, rfl, rfl⟩] at held
      rw [storedEntry, if_neg (by decide), isOwner, Interpreter.entryAt, held]
      rfl
    rw [storingNamed, if_neg nameless, storing, sameFrame, sameEntry]
    simp only [storingNamed, if_neg nameless, storing, Interpreter.putVariable_putVariable]

/-- Nobody attends to a variable that has been assigned, if nobody did before. -/
theorem Unattended.storingNamed
    {name : Text}
    {machine : Machine σ}
    (unattended : Unattended name machine)
    (value : Text) :
    Unattended name (storingNamed .visible name value machine) := by
  by_cases nameless : name = []
  · rw [Eval.storingNamed, if_pos nameless]
    exact unattended
  · have shown := visible?_storingNamed nameless value unattended.framed
    rw [Eval.storingNamed, if_neg nameless] at shown ⊢
    constructor
    case framed => exact unattended.framed.of_sameParents (.putVariable ..) rfl rfl
    case unasked => exact unattended.unasked
    case unheard => exact unattended.unheard
    case unwatched =>
      have ownWatch_eq : ∀ interpreter : Interpreter σ, ownWatch .visible name interpreter =
          ((interpreter.visible? name).map fun found => found.2.watch).getD [] := fun _ => rfl
      rw [ownWatch_eq, shown]
      exact (storedEntry_watch (by decide) ..).trans unattended.unwatched

/-! ## Counting -/

/-- A variable that reads as an integer is counted from there, where it is. -/
theorem callBuiltin_counter
    (run : Run σ)
    (rounds : Nat)
    (down : Bool)
    {name : Text}
    {amounts : List Text}
    {value amount : Int64}
    {machine : Machine σ}
    (unattended : Unattended name machine)
    (reads : (machine.interpreter.valueOf name).toNumber = .int value)
    (counts : amountOf amounts = .int amount) :
    callBuiltin run rounds (counter down) (name :: amounts) machine =
      .ok (.value (Text.ofInt (counted down value amount)))
        (storingNamed .visible name (Text.ofInt (counted down value amount)) machine) := by
  have called : callBuiltin run rounds (counter down) (name :: amounts) =
      Command.adjust run down (name :: amounts) := by
    cases down <;> rfl
  have adjusts : Command.adjust run down (name :: amounts) = (do
      let value := (← getVariable name).toNumber
      let result := (Command.adjusted down value (amountOf amounts)).text
      let _ ← setVariable run name result .visible
      return .value result) := by
    cases amounts <;> rfl
  obtain ⟨stored, assigned⟩ := setVariable_eq_storingNamed run name
    (Text.ofInt (counted down value amount)) unattended.framed unattended.unheard
    unattended.unwatched
  rw [called, adjusts, bind_of_ok (getVariable_apply name unattended.unasked), reads, counts,
    Command.text_adjusted, bind_of_ok assigned]
  rfl

/--
A variable to which nobody attends and whose text reads as an integer is counted up or down by any
integer: the result wraps around to 64 bits, and its decimal text is the value of the command and is
stored in the variable that the name means, or else in a new one in the current frame.  Counting
back by the same number, at once or whenever the variable still has that text, leaves the decimal
text of the integer with which it began.
-/
theorem counting_is_undone
    (run : Run σ)
    (rounds : Nat)
    {name : Text}
    {amounts : List Text}
    {value amount : Int64}
    {machine : Machine σ}
    (unattended : Unattended name machine)
    (reads : (machine.interpreter.valueOf name).toNumber = .int value)
    (counts : amountOf amounts = .int amount)
    (down : Bool) :
    callBuiltin run rounds (counter down) (name :: amounts) machine =
        .ok (.value (Text.ofInt (counted down value amount)))
          (storingNamed .visible name (Text.ofInt (counted down value amount)) machine) ∧
      storedIn .visible name machine.interpreter =
        ((machine.interpreter.visible? name).map Prod.fst).getD machine.interpreter.current ∧
      (name ≠ [] →
        (storingNamed .visible name (Text.ofInt (counted down value amount))
          machine).interpreter.valueOf name = Text.ofInt (counted down value amount) ∧
        (callBuiltin run rounds (counter down) (name :: amounts) >>= fun _ =>
            callBuiltin run rounds (counter !down) (name :: amounts)) machine =
          .ok (.value (Text.ofInt value.toInt))
            (storingNamed .visible name (Text.ofInt value.toInt) machine) ∧
        ∀ later : Machine σ, Unattended name later →
          later.interpreter.valueOf name = Text.ofInt (counted down value amount) →
          (∀ (run : Run σ) (rounds : Nat),
            callBuiltin run rounds (counter !down) (name :: amounts) later =
              .ok (.value (Text.ofInt value.toInt))
                (storingNamed .visible name (Text.ofInt value.toInt) later)) ∧
          (storingNamed .visible name (Text.ofInt value.toInt) later).interpreter.valueOf name =
            Text.ofInt value.toInt) := by
  have there := callBuiltin_counter run rounds down unattended reads counts
  have back : ∀ later : Machine σ, Unattended name later →
      later.interpreter.valueOf name = Text.ofInt (counted down value amount) →
      ∀ (run : Run σ) (rounds : Nat),
        callBuiltin run rounds (counter !down) (name :: amounts) later =
          .ok (.value (Text.ofInt value.toInt))
            (storingNamed .visible name (Text.ofInt value.toInt) later) := by
    intro later unattendedLater holds run rounds
    have readsLater := Command.toNumber_counted down value amount
    rw [← holds] at readsLater
    have counted := callBuiltin_counter run rounds (!down) unattendedLater readsLater counts
    rwa [Command.counted_back] at counted
  refine ⟨there, storedIn_visible name machine.interpreter, fun named => ⟨?_, ?_, ?_⟩⟩
  · exact valueOf_storingNamed named _ unattended.framed
  · rw [bind_of_ok there, back _ (unattended.storingNamed _)
      (valueOf_storingNamed named _ unattended.framed), storingNamed_storingNamed _ _ _
      unattended.framed]
  · exact fun later unattendedLater holds => ⟨back later unattendedLater holds,
      valueOf_storingNamed named _ unattendedLater.framed⟩

/-! ## Counting over both ends of the range -/

/-- A global variable that holds the greatest integer. -/
def fullEntry : Variable where
  name := [0x78]
  owner := rootFrame
  value := Text.ofString " +09223372036854775807"

/-- A machine in a new frame, from where a global variable holds the greatest integer. -/
def fullMachine : Machine Unit where
  interpreter :=
    { ((({} : Interpreter Unit).putVariable rootFrame [0x78] fullEntry).addFrame
        { parent := some rootFrame }).2 with
      current := 1 }
  world := { host := () }

/-- The least integer is taken away from the greatest one, and added again. -/
theorem counting_is_undone_extremes :
    ∃ after last,
      callBuiltin (evaluate 1) 1 .decrement
          [[0x78], Text.ofString "-9223372036854775808"] fullMachine =
        .ok (.value (Text.ofString "-1")) after ∧
      (after.interpreter.frame rootFrame).bindings.get? [0x78] =
        some { fullEntry with value := Text.ofString "-1" } ∧
      callBuiltin (evaluate 1) 1 .increment
          [[0x78], Text.ofString "-9223372036854775808"] after =
        .ok (.value (Text.ofString "9223372036854775807")) last ∧
      last.interpreter.valueOf [0x78] = Text.ofString "9223372036854775807" := by
  have framed : fullMachine.interpreter.WellFramed := by
    have new : ({} : Interpreter Unit).WellFramed := .of_new rfl rfl rfl
    have held := new.of_sameParents (.putVariable _ rootFrame [0x78] fullEntry) rfl rfl
    exact held.addFrame rfl held.rooted
  have unattended : Unattended [0x78] fullMachine := ⟨framed, rfl, rfl, by decide +kernel⟩
  have reads : (fullMachine.interpreter.valueOf [0x78]).toNumber = .int Int64.maxValue :=
    Text.toNumber_of_read? (by decide +kernel)
  have isLeast : Integer.read? (Text.ofString "-9223372036854775808").strip =
      some Int64.minValue := by
    decide +kernel
  have counts : amountOf [Text.ofString "-9223372036854775808"] = .int Int64.minValue :=
    Text.toNumber_of_read? isLeast
  have isMinusOne : Text.ofInt (counted true Int64.maxValue Int64.minValue) =
      Text.ofString "-1" := by
    decide +kernel
  have isGreatest : Text.ofInt Int64.maxValue.toInt = Text.ofString "9223372036854775807" := by
    decide +kernel
  obtain ⟨there, -, undone⟩ := counting_is_undone (evaluate 1) 1 unattended reads counts true
  obtain ⟨-, -, back⟩ := undone (by decide)
  obtain ⟨isBack, holds⟩ := back _ (unattended.storingNamed _)
    (valueOf_storingNamed (by decide) _ framed)
  rw [isGreatest] at isBack holds
  rw [isMinusOne] at there isBack holds
  exact ⟨_, _, there, rfl, isBack _ _, holds⟩

end Eval

end LittleScript
