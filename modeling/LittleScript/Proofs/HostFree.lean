import LittleScript.Proofs.Tables
import LittleScript.Script.Outermost

namespace LittleScript

/-!
# Interpreters without host commands

An interpreter none of whose commands is a host's stays one while it defines and renames
functions, and so does every jail it makes.
-/

variable {σ : Type}

namespace Interpreter

/-- Renaming a command changes nothing but the functions and the table of commands. -/
theorem rename_eq
    {interpreter renamed : Interpreter σ}
    {old new : Text}
    (moved : interpreter.rename old new = .ok renamed) :
    ∃ functions commands, renamed = { interpreter with functions, commands } := by
  rw [Interpreter.rename] at moved
  split at moved
  · cases moved
  · split at moved
    · cases moved
      exact ⟨interpreter.functions, _, rfl⟩
    · cases moved
      exact ⟨_, _, rfl⟩

/-- A renaming that may fail changes nothing but the functions and the table of commands either. -/
theorem rename_getD_eq
    (interpreter : Interpreter σ)
    (old new : Text) :
    ∃ functions commands,
      (interpreter.rename old new).toOption.getD interpreter =
        { interpreter with functions, commands } := by
  cases moved : interpreter.rename old new with
  | error reason =>
      exact ⟨interpreter.functions, interpreter.commands, rfl⟩
  | ok renamed =>
      exact rename_eq moved

/-- Every command of an interpreter has a definition that is accepted. -/
def OffersOnly (accept : Definition σ → Prop) (interpreter : Interpreter σ) : Prop :=
  ∀ entry ∈ interpreter.commands.entries, ∀ function,
    interpreter.function? entry.2 = some function → accept function.definition

namespace OffersOnly

variable {accept : Definition σ → Prop} {interpreter : Interpreter σ}

theorem mono
    {wider : Definition σ → Prop}
    (offers : interpreter.OffersOnly accept)
    (implies : ∀ definition, accept definition → wider definition) :
    interpreter.OffersOnly wider :=
  fun entry member function found => implies _ (offers entry member function found)

/-- The definition of a command is accepted. -/
theorem of_get?
    (offers : interpreter.OffersOnly accept)
    {name : Text}
    {id : FunctionId}
    (named : interpreter.commands.get? name = some id)
    {function : Function σ}
    (found : interpreter.function? id = some function) :
    accept function.definition := by
  obtain ⟨entry, member, isId⟩ := Table.mem_of_get? named
  exact offers entry member function (by rw [isId, found])

theorem define
    (offers : interpreter.OffersOnly accept)
    (name : Text)
    {definition : Definition σ}
    (accepted : accept definition) :
    (interpreter.define name definition).OffersOnly accept := by
  intro entry member function found
  simp only [Interpreter.define, function?, Array.getElem?_push] at found
  split at found
  · cases found
    exact accepted
  · rename_i older
    rcases Table.mem_insertEntry member with isNew | wasThere
    · exact (older (by simp [isNew])).elim
    · exact offers entry wasThere function found

/-- Renaming a function does not change what it does. -/
theorem rename
    (offers : interpreter.OffersOnly accept)
    {renamed : Interpreter σ}
    {old new : Text}
    (moved : interpreter.rename old new = .ok renamed) :
    renamed.OffersOnly accept := by
  intro entry member function found
  rw [Interpreter.rename] at moved
  split at moved
  · cases moved
  · rename_i id known
    obtain ⟨source, sourceMember, isId⟩ := Table.mem_of_get? known
    split at moved
    · cases moved
      exact offers entry (List.mem_filter.mp member).1 function found
    · cases moved
      have wasThere : ∃ before ∈ interpreter.commands.entries, before.2 = entry.2 := by
        rcases Table.mem_insertEntry member with isNew | kept
        · exact ⟨source, sourceMember, by simp [isNew, isId]⟩
        · exact ⟨entry, (List.mem_filter.mp kept).1, rfl⟩
      obtain ⟨before, beforeMember, sameId⟩ := wasThere
      simp only [function?, Array.getElem?_modify] at found
      split at found
      · obtain ⟨original, wasFound, rfl⟩ := Option.map_eq_some_iff.mp found
        exact offers before beforeMember original (by rw [sameId]; exact wasFound)
      · exact offers before beforeMember function (by rw [sameId]; exact found)

/-- Defining functions one after the other keeps every command accepted if they are. -/
theorem foldl_define
    {α : Type}
    (name : α → Text)
    (definition : α → Definition σ)
    (items : List α)
    {interpreter : Interpreter σ}
    (offers : interpreter.OffersOnly accept)
    (accepted : ∀ item ∈ items, accept (definition item)) :
    (items.foldl (fun extended item => extended.define (name item) (definition item))
      interpreter).OffersOnly accept := by
  induction items generalizing interpreter with
  | nil =>
      exact offers
  | cons item rest inductionHypothesis =>
      apply inductionHypothesis (offers.define (name item) (accepted item (by simp)))
      intro other member
      exact accepted other (by simp [member])

/-- Remembering commands as the system's changes none of them. -/
theorem withSystem
    (offers : interpreter.OffersOnly accept)
    (table : Table FunctionId) :
    ({ interpreter with system := table } : Interpreter σ).OffersOnly accept :=
  offers

/-- A fresh interpreter offers built-in commands. -/
theorem fresh
    (builtins : ∀ command, accept (.builtin command))
    (limits : Limits)
    (callbacks : Callbacks σ) :
    (Interpreter.fresh limits callbacks).OffersOnly accept := by
  have empty : ({ limits, callbacks } : Interpreter σ).OffersOnly accept := by
    intro entry member
    cases member
  have registered :=
    foldl_define Builtin.name Definition.builtin Builtin.all empty (fun _ _ => builtins _)
  rw [Interpreter.fresh, withBuiltins]
  exact registered.withSystem _

/-- A jail offers built-in commands and what its parent offers. -/
theorem jail
    (builtins : ∀ command, accept (.builtin command))
    (offers : interpreter.OffersOnly accept)
    (clean : Bool) :
    (Eval.jailInterpreter interpreter clean).OffersOnly accept := by
  rw [Eval.jailInterpreter]
  split
  · exact fresh builtins _ _
  · refine foldl_define Function.name Function.definition _ (fresh builtins _ _) ?_
    intro function member
    obtain ⟨⟨name, id⟩, entryMember, chosen⟩ := List.mem_filterMap.mp member
    simp only at chosen
    split at chosen
    · rename_i found
      split at chosen
      · cases chosen
        exact offers (name, id) entryMember function found
      · cases chosen
    · cases chosen

end OffersOnly

/-- No command of an interpreter is a host's. -/
def HostFree (interpreter : Interpreter σ) : Prop :=
  ∀ entry ∈ interpreter.commands.entries, ∀ function,
    interpreter.function? entry.2 = some function →
    ∀ command, function.definition ≠ .host command

theorem hostFree_iff
    {interpreter : Interpreter σ} :
    interpreter.HostFree ↔
      interpreter.OffersOnly fun definition => ∀ command, definition ≠ .host command :=
  Iff.rfl

namespace HostFree

/-- The command of a name is not a host's. -/
theorem of_get?
    {interpreter : Interpreter σ}
    (free : interpreter.HostFree)
    {name : Text}
    {id : FunctionId}
    (named : interpreter.commands.get? name = some id)
    {function : Function σ}
    (found : interpreter.function? id = some function)
    (command : List Text → HostAction σ) :
    function.definition ≠ .host command :=
  (hostFree_iff.mp free).of_get? named found command

/-- Defining a function that is not a host's keeps an interpreter free of host commands. -/
theorem define
    {interpreter : Interpreter σ}
    (free : interpreter.HostFree)
    (name : Text)
    {definition : Definition σ}
    (own : ∀ command, definition ≠ .host command) :
    (interpreter.define name definition).HostFree :=
  hostFree_iff.mpr ((hostFree_iff.mp free).define name own)

theorem rename
    {interpreter renamed : Interpreter σ}
    (free : interpreter.HostFree)
    {old new : Text}
    (moved : interpreter.rename old new = .ok renamed) :
    renamed.HostFree :=
  hostFree_iff.mpr ((hostFree_iff.mp free).rename moved)

/-- The frames of an interpreter have no part in its commands. -/
theorem withFrames
    {interpreter : Interpreter σ}
    (free : interpreter.HostFree)
    (frames : Array Frame) :
    ({ interpreter with frames } : Interpreter σ).HostFree :=
  free

/-- A fresh interpreter has no host commands. -/
theorem fresh
    (limits : Limits)
    (callbacks : Callbacks σ) :
    (Interpreter.fresh limits callbacks).HostFree :=
  hostFree_iff.mpr (.fresh (fun _ _ same => nomatch same) limits callbacks)

/-- The jail of an interpreter without host commands has none either. -/
theorem jail
    {parent : Interpreter σ}
    (free : parent.HostFree)
    (clean : Bool) :
    (Eval.jailInterpreter parent clean).HostFree :=
  hostFree_iff.mpr ((hostFree_iff.mp free).jail (fun _ _ same => nomatch same) clean)

end HostFree

/-- Defining functions changes nothing but the functions and the table of commands. -/
theorem foldl_define_eq
    {α : Type}
    (name : α → Text)
    (definition : α → Definition σ)
    (items : List α)
    (interpreter : Interpreter σ) :
    ∃ functions commands,
      items.foldl (fun extended item => extended.define (name item) (definition item))
        interpreter = { interpreter with functions, commands } := by
  induction items generalizing interpreter with
  | nil =>
      exact ⟨interpreter.functions, interpreter.commands, rfl⟩
  | cons item rest inductionHypothesis =>
      obtain ⟨functions, commands, shape⟩ :=
        inductionHypothesis (interpreter.define (name item) (definition item))
      exact ⟨functions, commands, shape⟩

/-- A fresh interpreter has its commands and is otherwise in its initial state. -/
theorem fresh_eq
    (limits : Limits)
    (callbacks : Callbacks σ) :
    ∃ functions commands system,
      Interpreter.fresh limits callbacks =
        { limits, callbacks, functions, commands, system } := by
  obtain ⟨functions, commands, shape⟩ :=
    foldl_define_eq Builtin.name Definition.builtin Builtin.all
      ({ limits, callbacks } : Interpreter σ)
  refine ⟨functions, commands, commands, ?_⟩
  rw [Interpreter.fresh, withBuiltins, shape]

/-- A new jail has the limits of its parent, and no evaluation is running in it. -/
theorem limits_active_jail
    (parent : Interpreter σ)
    (clean : Bool) :
    (Eval.jailInterpreter parent clean).limits = parent.limits ∧
      (Eval.jailInterpreter parent clean).active = [] := by
  obtain ⟨functions, commands, system, isFresh⟩ :=
    fresh_eq parent.limits { write := parent.callbacks.write }
  rw [Eval.jailInterpreter]
  split
  · rw [isFresh]
    exact ⟨rfl, rfl⟩
  · obtain ⟨_, _, shape⟩ := foldl_define_eq Function.name Function.definition parent.hostCommands
      (Interpreter.fresh parent.limits { write := parent.callbacks.write })
    rw [shape, isFresh]
    exact ⟨rfl, rfl⟩

theorem active_jail
    (parent : Interpreter σ)
    (clean : Bool) :
    (Eval.jailInterpreter parent clean).active = [] :=
  (limits_active_jail parent clean).2

end Interpreter

end LittleScript
