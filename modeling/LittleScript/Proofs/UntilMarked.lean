import LittleScript.Proofs.Replacement
import LittleScript.Proofs.Serving

namespace LittleScript.Eval

/-!
# Marks that a host sees

What callbacks of a kind and evaluation do to the world may mark it for good, in jails as well.  If
built-in commands are called in another way only where calling them marks the world, all code ends
alike with these commands, or it leaves the world marked.
-/

variable {σ : Type}

/-- A mark that stays wherever evaluation with callbacks of a kind goes on from it. -/
structure Marking
    (serves : Callbacks σ → Context → Prop)
    (onward : World σ → World σ → Prop)
    (marks : World σ → Prop) : Prop where
  onwards : Onward serves onward
  jails : ∀ callbacks context, serves callbacks context →
    serves { write := callbacks.write } context
  stays : Stays onward marks

variable {serves : Callbacks σ → Context → Prop} {onward : World σ → World σ → Prop}
  {marks : World σ → Prop}

/-- Built-in commands are called alike, or with any nested code leave the world marked. -/
def AlikeBuiltins (serves : Callbacks σ → Context → Prop) (marks : World σ → Prop)
    (builtins : Builtins σ) : Prop :=
  ∀ run rounds command arguments (machine : Machine σ),
    (Scope.serving serves).holds machine.interpreter →
    builtins run rounds command arguments machine =
        callBuiltin run rounds command arguments machine ∨
      ∀ plain, marks (final (callBuiltin plain rounds command arguments) machine).world

/--
If built-in commands are called in another way only where calling them marks the world, all code
ends alike with these commands, or it leaves the world marked.
-/
theorem evaluateVia_alikeUnless
    (marking : Marking serves onward marks)
    {builtins : Builtins σ}
    (alike : AlikeBuiltins serves marks builtins)
    (fuel : Nat)
    (code : Text)
    (ownResult : Bool)
    (machine : Machine σ)
    (held : (Scope.serving serves).holds machine.interpreter) :
    AlikeUnless (Serving serves onward) marks
      (evaluateVia (dispatchWith builtins) fuel code ownResult)
      (evaluate fuel code ownResult) machine := by
  have leading := marking.onwards.leading
  have through := marking.onwards.through_evaluate marking.jails
  refine (leading.comparison True.intro through marking.stays).evaluateVia_dispatchWith
    (fun other fuel runs command arguments machine held _ => ?_) fuel code ownResult machine held
  have calls : AlikeUnless (Serving serves onward) marks
      (callBuiltin other fuel command arguments)
      (callBuiltin (evaluate fuel) fuel command arguments) machine := by
    refine (Assembled.callBuiltin fuel True.intro arguments).alikeUnless leading (through fuel)
      marking.stays held fun call reached => ?_
    cases reached with
    | here code ownResult led =>
        exact (runs code ownResult _ (led.1 held)).same
    | jailed clean code _ led =>
        exact (runs code true _ (holds_jailMachine marking.jails clean (led.1 held))).same
  refine ⟨calls.leads, ?_⟩
  rcases alike other fuel command arguments machine held with same | marked
  · rw [same]
    exact calls.same
  · exact .inr (marked (evaluate fuel))

end LittleScript.Eval
