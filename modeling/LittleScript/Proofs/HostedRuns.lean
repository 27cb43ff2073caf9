import LittleScript.Proofs.ControlState
import LittleScript.Proofs.Replacement

namespace LittleScript.Eval

/-!
# Runs with host commands

A host command makes and leaves frames, assigns variables and runs code, between two commands of a
script or on behalf of its host.  A relation between machines that leads along every run holds along
these runs as well if it respects the few things that scripts cannot do by themselves.  Commands are
then only called where the realm of the relation holds, and whoever calls them like the scripts do
there gets the same runs.
-/

variable {σ α : Type}

/-- A relation that leads along whatever host commands and scripts do where a realm holds. -/
structure LeadsHosts
    (realm : Realm σ)
    (rel : Machine σ → Machine σ → Prop) : Prop extends
    Leading realm rel fun _ _ => True where
  allowed : ∀ command, realm.allowed command
  drops : realm.drops
  holdsInJail : ∀ clean {machine : Machine σ}, realm.holds machine.interpreter →
    realm.holds (jailMachine clean machine).interpreter
  surrounded : ∀ {before after : Machine σ} (context : Context),
    after.interpreter = { before.interpreter with context } → rel before after
  declared : ∀ (machine : Machine σ) (name value : Text),
    rel machine
      { machine with
        interpreter := machine.interpreter.putVariable machine.interpreter.current name
          { name, owner := machine.interpreter.current, value } }
  pushFrame : ∀ machine, rel machine (final Eval.pushFrame machine)
  popFrame : ∀ machine, rel machine (final Eval.popFrame machine)

/-- A dispatcher that calls commands as scripts do wherever something is true of the interpreter. -/
def AgreesWhere (holds : Interpreter σ → Prop) (dispatcher : Dispatcher σ) : Prop :=
  ∀ run rounds command (machine : Machine σ), holds machine.interpreter →
    dispatcher run rounds command machine = dispatch run rounds command machine

namespace LeadsHosts

variable {realm : Realm σ} {rel : Machine σ → Machine σ → Prop} (leads : LeadsHosts realm rel)
include leads

/-- Evaluations of code are compared where a realm holds, along which a relation leads. -/
def comparison : Comparison realm where
  alike other plain machine := AlikeUnless rel (fun _ => False) other plain machine
  part := realm
  drops := leads.drops
  of_eq alike sameOther samePlain := alike.of_eq (sameOther _ rfl) samePlain
  exhausted {_ machine} _ := ⟨leads.refl machine, .inl rfl⟩
  bind held first second := first.bind leads.toLeading (fun _ marked => marked)
    fun value between ran led => second value between ran (leads.holds led held)
  script code _ held body := .script leads.toLeading (fun _ marked => marked) code held body
  assembled {fuel} _ runs _ _ assembled _ held := by
    have through : Through realm rel (evaluate (σ := σ) fuel) :=
      ⟨fun code ownResult {_} held => (runs code ownResult _ held).leads,
        fun _ _ _ machine _ => leads.surrounded machine.interpreter.context rfl⟩
    refine assembled.alikeUnless leads.toLeading through (fun _ marked => marked) held
      fun call reached => ?_
    cases reached with
    | here code ownResult led => exact (runs code ownResult _ (leads.holds led held)).same
    | jailed clean code _ led =>
        exact (runs code true _ (leads.holdsInJail clean (leads.holds led held))).same

/-! ## What host commands do -/

section Performing

variable {fuel : Nat} {other : Run σ} {machine : Machine σ}

/-- An action that does the same on its own. -/
theorem comparison_of_leading
    {action : Eval σ α}
    (led : rel machine (final action machine)) :
    leads.comparison.alike action action machine :=
  ⟨led, .inl rfl⟩

/-- An action that leaves the interpreter as it is. -/
theorem comparison_of_same
    {action : Eval σ α}
    (same : (final action machine).interpreter = machine.interpreter) :
    leads.comparison.alike action action machine :=
  leads.comparison_of_leading (leads.surrounded machine.interpreter.context same)

/-- Evaluating code as a host does. -/
theorem comparison_evaluateIn
    (runs : leads.comparison.Runs other (evaluate fuel))
    (context : Context)
    (code : Text)
    (held : realm.holds machine.interpreter) :
    leads.comparison.alike (evaluateIn other context code)
      (evaluateIn (evaluate fuel) context code) machine := by
  have into : rel machine (outermostCall context code machine).machine :=
    leads.surrounded context rfl
  have alike := runs code true _ (leads.holds into held)
  have back := leads.surrounded machine.interpreter.context
    (final_evaluateIn (evaluate fuel) context code machine)
  exact ⟨leads.trans into (leads.trans alike.leads back),
    .inl (evaluateIn_congr (alike.same.resolve_right id))⟩

/-- Assigning a variable in any way. -/
theorem comparison_setVariable
    (runs : leads.comparison.Runs other (evaluate fuel))
    (name value : Text)
    (mode : Mode)
    (held : realm.holds machine.interpreter) :
    leads.comparison.alike (setVariable other name value mode)
      (setVariable (evaluate fuel) name value mode) machine := by
  by_cases isFresh : mode = .fresh
  · subst isFresh
    have puts : rel machine (final (setVariable (evaluate fuel) name value .fresh) machine) := by
      cases unnamed : name.isEmpty with
      | true =>
          simp only [final, setVariable, unnamed]
          exact leads.refl machine
      | false =>
          simp only [final, setVariable, unnamed]
          exact leads.declared machine name value
    exact ⟨puts, .inl rfl⟩
  · exact leads.comparison.assembled runs (.assign name value isFresh) held

/-- Whatever a host command does. -/
theorem comparison_perform
    (runs : leads.comparison.Runs other (evaluate fuel))
    (action : HostAction σ) :
    ∀ {machine : Machine σ}, realm.holds machine.interpreter →
      leads.comparison.alike (perform other action) (perform (evaluate fuel) action) machine := by
  induction action with
  | reply answer =>
      exact fun _ => leads.comparison_of_same rfl
  | crash =>
      exact fun _ => leads.comparison_of_same rfl
  | touch update next inductionHypothesis =>
      exact fun held => leads.comparison.bind held (leads.comparison_of_same rfl)
        fun _ _ _ => inductionHypothesis
  | run code ownResult next inductionHypothesis =>
      exact fun held => leads.comparison.bind held (runs code ownResult _ held)
        fun value _ _ => inductionHypothesis value
  | evaluate code next inductionHypothesis =>
      intro machine held
      simp only [perform]
      refine leads.comparison.bind held (leads.comparison_evaluateIn runs .background code held)
        fun evaluated _ _ held => ?_
      cases evaluated.failure with
      | some failure => exact inductionHypothesis (.error failure) held
      | none => exact inductionHypothesis (.ok evaluated.value) held
  | raise message next inductionHypothesis =>
      exact fun held => leads.comparison.bind held
        (leads.comparison.assembled runs (.raise _) held) fun _ _ _ => inductionHypothesis
  | raiseAt offset message next inductionHypothesis =>
      intro machine held
      have raises : Assembled realm fun _ => raiseInnermost offset (.raised message) := by
        refine .consult _ (fun _ _ _ => rfl) fun interpreter _ => ?_
        split
        · exact .record ..
        · exact .raise _
      exact leads.comparison.bind held (leads.comparison.assembled runs raises held)
        fun _ _ _ => inductionHypothesis
  | pendingError next inductionHypothesis =>
      exact fun held => leads.comparison.bind held (leads.comparison_of_same rfl)
        fun value _ _ => inductionHypothesis value
  | clearError next inductionHypothesis =>
      exact fun held => leads.comparison.bind held
        (leads.comparison.assembled runs (.drop leads.drops) held)
        fun _ _ _ => inductionHypothesis
  | pushFrame next inductionHypothesis =>
      exact fun held => leads.comparison.bind held
        (leads.comparison_of_leading (leads.pushFrame _)) fun _ _ _ => inductionHypothesis
  | popFrame next inductionHypothesis =>
      exact fun held => leads.comparison.bind held
        (leads.comparison_of_leading (leads.popFrame _)) fun _ _ _ => inductionHypothesis
  | frameDepth next inductionHypothesis =>
      exact fun held => leads.comparison.bind held (leads.comparison_of_same rfl)
        fun value _ _ => inductionHypothesis value
  | frameFunction next inductionHypothesis =>
      exact fun held => leads.comparison.bind held (leads.comparison_of_same rfl)
        fun value _ _ => inductionHypothesis value
  | setVariable name value mode next inductionHypothesis =>
      exact fun held => leads.comparison.bind held
        (leads.comparison_setVariable runs name value mode held)
        fun stored _ _ => inductionHypothesis stored
  | watch name code next inductionHypothesis =>
      exact fun held => leads.comparison.bind held
        (leads.comparison.assembled runs (.watch name code (leads.allowed _)) held)
        fun _ _ _ => inductionHypothesis
  | upEvaluate code next inductionHypothesis =>
      exact fun held => leads.comparison.bind held
        (leads.comparison.assembled runs (.heading .up code (leads.allowed _)) held)
        fun value _ _ => inductionHypothesis value
  | downEvaluate code next inductionHypothesis =>
      exact fun held => leads.comparison.bind held
        (leads.comparison.assembled runs (.heading .down code (leads.allowed _)) held)
        fun value _ _ => inductionHypothesis value
  | topEvaluate code next inductionHypothesis =>
      exact fun held => leads.comparison.bind held
        (leads.comparison.assembled runs (.heading .top code (leads.allowed _)) held)
        fun value _ _ => inductionHypothesis value
  | isolatedEvaluate code imports exports next inductionHypothesis =>
      exact fun held => leads.comparison.bind held
        (leads.comparison.assembled runs (.isolatedEvaluate code imports exports) held)
        fun value _ _ => inductionHypothesis value

end Performing

/-! ## Evaluations -/

/-- Where the realm holds, commands are only called where it holds. -/
theorem comparison_evaluateVia
    {dispatcher : Dispatcher σ}
    (agrees : AgreesWhere realm.holds dispatcher)
    (fuel : Nat) :
    leads.comparison.Runs (evaluateVia dispatcher fuel) (evaluate fuel) := by
  refine leads.comparison.evaluateVia (fun other fuel runs command machine held => ?_) fuel
  have calls : leads.comparison.alike (dispatch other fuel command)
      (dispatch (evaluate fuel) fuel command) machine :=
    leads.comparison.dispatchWith runs held
      (fun arguments _ _ => leads.comparison.assembled runs
        (.callBuiltin fuel (leads.allowed _) arguments) held)
      (fun arguments _ _ => leads.comparison_perform runs _ held) command
  refine leads.comparison.of_eq calls (fun start same => ?_) rfl
  exact agrees other fuel command start (same ▸ held)

/-- Along all code the relation leads. -/
theorem comparison_evaluate
    (fuel : Nat) :
    leads.comparison.Runs (evaluate (σ := σ) fuel) (evaluate fuel) := by
  have agrees : AgreesWhere realm.holds (dispatch (σ := σ)) := fun _ _ _ _ _ => rfl
  have runs := leads.comparison_evaluateVia agrees fuel
  rwa [evaluateVia_dispatch] at runs

section Hosts

variable {machine : Machine σ}

/-- Along what a host evaluates the relation leads. -/
theorem evaluated
    (held : realm.holds machine.interpreter)
    (fuel : Nat)
    (context : Context)
    (code : Text) :
    rel machine (machine.perform (evaluateIn (evaluate fuel) context code)).2 := by
  rw [perform_snd]
  exact (leads.comparison_evaluateIn (leads.comparison_evaluate fuel) context code held).leads

/-- Along what is put together from the parts of evaluation the relation leads. -/
theorem assembled
    (held : realm.holds machine.interpreter)
    (fuel : Nat)
    {action : Run σ → Eval σ α}
    (isAssembled : Assembled realm action) :
    rel machine (machine.perform (action (evaluate fuel))).2 := by
  rw [perform_snd]
  exact (leads.comparison.assembled (leads.comparison_evaluate fuel) isAssembled held).leads

/-- Along what a host command does the relation leads, also on behalf of its host. -/
theorem performed
    (held : realm.holds machine.interpreter)
    (fuel : Nat)
    (action : HostAction σ) :
    rel machine (machine.perform (perform (evaluate fuel) action)).2 := by
  rw [perform_snd]
  exact (leads.comparison_perform (leads.comparison_evaluate fuel) action held).leads

/-- What a host evaluates calls commands only where the realm holds. -/
theorem called
    (held : realm.holds machine.interpreter)
    {dispatcher : Dispatcher σ}
    (agrees : AgreesWhere realm.holds dispatcher)
    (fuel : Nat)
    (context : Context)
    (code : Text) :
    machine.perform (evaluateIn (evaluateVia dispatcher fuel) context code) =
      machine.perform (evaluateIn (evaluate fuel) context code) := by
  have alike := leads.comparison_evaluateIn (leads.comparison_evaluateVia agrees fuel) context code
    held
  rw [Machine.perform, Machine.perform, alike.same.resolve_right id]

/-- What a host command does calls commands only where the realm holds. -/
theorem calledByHost
    (held : realm.holds machine.interpreter)
    {dispatcher : Dispatcher σ}
    (agrees : AgreesWhere realm.holds dispatcher)
    (fuel : Nat)
    (action : HostAction σ) :
    machine.perform (perform (evaluateVia dispatcher fuel) action) =
      machine.perform (perform (evaluate fuel) action) := by
  have alike := leads.comparison_perform (leads.comparison_evaluateVia agrees fuel) action held
  rw [Machine.perform, Machine.perform, alike.same.resolve_right id]

end Hosts

end LeadsHosts

end LittleScript.Eval
