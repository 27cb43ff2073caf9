import LittleScript.Proofs.Endurance

namespace LittleScript.Eval

/-!
# Nested calls

Which code an evaluation runs inside itself shows in what it depends on: an action makes a nested
call when some other answer to that call would change how the action ends.  A nested call that
stops the evaluation is never absorbed by what is composed around it; only the evaluation that a
host or a jail starts on an idle interpreter takes notice of it.
-/

variable {σ α β : Type}

/-- A run of nested code: the code, whether it owns the result of its frame, and where it starts. -/
structure Call (σ : Type) where
  code : Text
  ownResult : Bool
  machine : Machine σ

open Classical in

/-- Run nested code as before, except that one call is given another answer. -/
noncomputable def answering (run : Run σ) (call : Call σ)
    (answer : EStateM.Result Stop (Machine σ) Text) : Run σ :=
  fun code ownResult machine =>
    if (⟨code, ownResult, machine⟩ : Call σ) = call then answer
    else run code ownResult machine

/-- An action makes a nested call when some other answer would change how the action ends. -/
def Makes (action : Run σ → Eval σ α) (run : Run σ) (machine : Machine σ) (call : Call σ) : Prop :=
  ∃ answer, action (answering run call answer) machine ≠ action run machine

/--
`Nested fuel call remaining inner` says that the run of `call` with `fuel` leads to the run of
`inner` with `remaining` fuel, one call nested in the other, on the same interpreter: a call on an
interpreter where nothing is active yet belongs to a jail.
-/
inductive Nested : Nat → Call σ → Nat → Call σ → Prop where
  | here (fuel : Nat) (call : Call σ) :
      Nested fuel call fuel call
  | deeper {fuel remaining : Nat} {call next inner : Call σ} :
      Makes (fun run => script run fuel call.code call.ownResult) (evaluate fuel) call.machine
        next →
      next.machine.interpreter.active ≠ [] →
      Nested fuel next remaining inner →
      Nested (fuel + 1) call remaining inner

/-! ## Two ways to run nested code -/

/--
Two ways to run nested code agree up to some stops: where they differ, the first stops with one of
these, on an interpreter with active evaluations.
-/
def AgreeUpTo (stops : Stop → Prop) (run other : Run σ) : Prop :=
  ∀ code ownResult (machine : Machine σ), machine.interpreter.HostFree →
    run code ownResult machine = other code ownResult machine ∨
      machine.interpreter.active ≠ [] ∧
        ∃ stop after, stops stop ∧ run code ownResult machine = .error stop after

/-- Two actions end alike on a machine, unless the first stops with one of these. -/
def EndAlike (stops : Stop → Prop) (action other : Eval σ α) (machine : Machine σ) : Prop :=
  action machine = other machine ∨ ∃ stop after, stops stop ∧ action machine = .error stop after

theorem AgreeUpTo.endAlike
    {stops : Stop → Prop}
    {run other : Run σ}
    (agree : AgreeUpTo stops run other)
    (code : Text)
    (ownResult : Bool)
    {machine : Machine σ}
    (hostFree : machine.interpreter.HostFree) :
    EndAlike stops (run code ownResult) (other code ownResult) machine := by
  rcases agree code ownResult machine hostFree with same | ⟨_, stopped⟩
  · exact .inl same
  · exact .inr stopped

namespace EndAlike

variable {stops : Stop → Prop}

theorem refl
    (action : Eval σ α)
    (machine : Machine σ) :
    EndAlike stops action action machine :=
  .inl rfl

theorem bind
    {action other : Eval σ α}
    {next otherNext : α → Eval σ β}
    {machine : Machine σ}
    (first : EndAlike stops action other machine)
    (second : ∀ value after, action machine = .ok value after →
      EndAlike stops (next value) (otherNext value) after) :
    EndAlike stops (action >>= next) (other >>= otherNext) machine := by
  rcases first with same | ⟨stop, after, isStop, stopped⟩
  · cases ran : action machine with
    | ok value after =>
        rw [EndAlike, bind_of_ok ran, bind_of_ok (same ▸ ran)]
        exact second value after ran
    | error stop after =>
        rw [EndAlike, bind_of_error ran, bind_of_error (same ▸ ran)]
        exact .inl rfl
  · exact .inr ⟨stop, after, isStop, bind_of_error stopped⟩

theorem ensuring
    {action other : Eval σ α}
    {machine : Machine σ}
    (alike : EndAlike stops action other machine)
    (cleanup : Machine σ → Machine σ) :
    EndAlike stops (Eval.ensuring action cleanup) (Eval.ensuring other cleanup) machine := by
  rcases alike with same | ⟨stop, after, isStop, stopped⟩
  · left
    simp only [Eval.ensuring, same]
  · right
    refine ⟨stop, cleanup after, isStop, ?_⟩
    simp only [Eval.ensuring, stopped]

end EndAlike

/-- Having no host commands lasts by itself. -/
theorem Lasting.trivial :
    Lasting (σ := σ) fun _ _ => True := by
  constructor <;> intros <;> exact True.intro

theorem LastingScript.trivial :
    LastingScript (σ := σ) (fun _ _ => True) fun _ _ => True :=
  { Lasting.trivial with
    outerRefl := fun _ => True.intro
    within := fun _ _ _ => True.intro
    enclose := fun _ _ _ _ => True.intro }

/-- An evaluation depends on nested code only through its own run of the code. -/
theorem evaluateIn_congr
    {run other : Run σ}
    {context : Context}
    {code : Text}
    {machine : Machine σ}
    (same : run code true
        { machine with interpreter := { machine.interpreter with context } } =
      other code true
        { machine with interpreter := { machine.interpreter with context } }) :
    evaluateIn run context code machine = evaluateIn other context code machine := by
  have reports :
      runReporting run code
          { machine with interpreter := { machine.interpreter with context } } =
        runReporting other code
          { machine with interpreter := { machine.interpreter with context } } := by
    simp only [runReporting, bind, EStateM.bind, same]
  simp only [evaluateIn, inspect_bind_apply, change_bind_apply]
  split
  · simp only [catchTooDeep, ensuring, reports]
  · simp only [ensuring, reports]

/--
Two ways to run nested code agree as far as a scope and its ground need it: up to some stops on the
ground, and in every way where a jail starts, if the scope allows for jails.
-/
structure AgreeOn
    (scope : Scope σ)
    (stands : Interpreter σ → Prop)
    (stops : Stop → Prop)
    (run other : Run σ) : Prop where
  here : ∀ code ownResult {machine : Machine σ}, stands machine.interpreter →
    EndAlike stops (run code ownResult) (other code ownResult) machine
  jailed : scope.allowed .jailEvaluate → ∀ {parent : Interpreter σ} (clean : Bool)
    (context : Context) (code : Text) (world : World σ), scope.holds parent →
    run code true ⟨{ jailInterpreter parent clean with context }, world⟩ =
      other code true ⟨{ jailInterpreter parent clean with context }, world⟩

/-- What is composed does not absorb a stop of a nested call. -/
theorem Composed.endAlike
    {scope : Scope σ}
    {stands : Interpreter σ → Prop}
    (ground : Ground scope stands)
    {stops : Stop → Prop}
    {run other : Run σ}
    (agree : AgreeOn scope stands stops run other)
    (endures : ∀ code ownResult, Endures stands (fun _ => True) (run code ownResult))
    {action : Run σ → Eval σ α}
    (composed : Composed scope.toRealm action) :
    ∀ machine : Machine σ, stands machine.interpreter →
      EndAlike stops (action run) (action other) machine := by
  induction composed with
  | pure value =>
      exact fun machine _ => .refl _ machine
  | bind firstComposed _ firstAlike nextAlike =>
      intro machine standing
      refine .bind (firstAlike machine standing) fun value after ran => ?_
      exact nextAlike value after (firstComposed.stands_of_ok ground endures standing ran)
  | consult view _ _ nextAlike =>
      exact fun machine standing =>
        nextAlike machine.interpreter (ground.holds standing) machine standing
  | step update =>
      exact fun machine _ => .refl _ machine
  | record offset reason =>
      exact fun machine _ => .refl _ machine
  | drop _ =>
      exact fun machine _ => .refl _ machine
  | ask answer =>
      exact fun machine _ => .refl _ machine
  | observe view =>
      exact fun machine _ => .refl _ machine
  | halt stop _ _ =>
      exact fun machine _ => .refl _ machine
  | nested code ownResult =>
      exact fun machine => agree.here code ownResult
  | inFrame frame down _ _ _ inside =>
      intro machine standing
      have entered := inside
        { machine with interpreter := { machine.interpreter with current := frame, down } }
        (ground.same standing rfl rfl rfl rfl)
      exact entered.ensuring _
  | inNewFrame frame _ _ inside =>
      intro machine standing
      have entered := inside
        (frameRecord "push frame" { machine with interpreter :=
          { (machine.interpreter.addFrame frame).2 with
            current := machine.interpreter.frames.size } })
        (ground.same standing rfl rfl rfl rfl)
      exact entered.ensuring _
  | runWatch frame code _ =>
      intro machine standing
      simp only [Eval.runWatch]
      split
      · have entered : EndAlike stops (do let _ ← run code true) (do let _ ← other code true)
            { machine with interpreter := { machine.interpreter with current := frame } } :=
          .bind (agree.here code true (ground.same standing rfl rfl rfl rfl)) fun _ _ _ =>
            .refl ..
        exact entered.ensuring _
      · exact .refl _ machine
  | inCatcher _ inside =>
      intro machine standing
      have entered := inside
        { machine with interpreter :=
          { machine.interpreter with catchers := machine.interpreter.catchers + 1 } }
        (ground.same standing rfl rfl rfl rfl)
      exact entered.ensuring _
  | catching code _ _ _ _ refusedAlike passedAlike caughtAlike =>
      intro machine standing
      refine .bind (.refl _ machine) fun pending after looked => ?_
      cases looked
      split
      · exact refusedAlike machine standing
      · refine .bind (agree.here code false standing) fun value after ran => ?_
        have kept := (endures code false machine standing).1
        rw [final_of_ok ran] at kept
        refine .bind (.refl _ after) fun failed between looked => ?_
        cases looked
        split
        · refine .bind (.refl _ after) fun _ cleared dropped => ?_
          cases dropped
          exact caughtAlike _ (ground.same kept rfl rfl rfl rfl)
        · exact passedAlike value after kept
  | @jail parent clean context code allowed held =>
      intro machine _
      have entered : EndAlike stops (evaluateIn run context code) (evaluateIn other context code)
          { machine with interpreter := jailInterpreter parent clean } :=
        .inl (evaluateIn_congr (agree.jailed allowed clean context code machine.world held))
      exact entered.ensuring _

/-- Scripts without host commands stay without them. -/
theorem ground_hostFree
    (drops : Prop) :
    Ground (σ := σ) (.whole drops) Interpreter.HostFree where
  holds free := free
  same free _ sameFunctions sameCommands _ := by
    intro entry member function found
    rw [sameCommands] at member
    rw [Interpreter.function?, sameFunctions] at found
    exact free entry member function found
  define name _ _ free := free.define name (by simp)
  rename moved free := free.rename moved
  mark _ free := free

theorem AgreeUpTo.agreeOn
    {stops : Stop → Prop}
    {run other : Run σ}
    (agree : AgreeUpTo stops run other)
    (drops : Prop) :
    AgreeOn (.whole drops) Interpreter.HostFree stops run other where
  here code ownResult machine hostFree := agree.endAlike code ownResult hostFree
  jailed _ parent clean context code world held := by
    rcases agree code true ⟨{ jailInterpreter parent clean with context }, world⟩
      (held.jail clean) with same | ⟨busy, _⟩
    · exact same
    · exact absurd (Interpreter.active_jail parent clean) busy

/-- A script does not absorb a stop of a nested call. -/
theorem script_endAlike
    {stops : Stop → Prop}
    {run other : Run σ}
    (agree : AgreeUpTo stops run other)
    (free : ∀ code ownResult, Upholds (fun _ _ => True) (run code ownResult))
    (rounds : Nat)
    (code : Text)
    (ownResult : Bool)
    (machine : Machine σ)
    (hostFree : machine.interpreter.HostFree) :
    EndAlike stops (script run rounds code ownResult) (script other rounds code ownResult)
      machine := by
  rw [EndAlike, script_apply, script_apply]
  have body : Composed (Scope.whole (σ := σ) True).toRealm _ :=
    .scriptBody rounds code ownResult machine.interpreter.active.isEmpty fun _ => True.intro
  have endures : ∀ code ownResult,
      Endures Interpreter.HostFree (fun _ => True) (run code ownResult) :=
    fun code ownResult machine hostFree =>
      ⟨(free code ownResult machine hostFree).1, fun _ _ _ => True.intro⟩
  have alike := body.endAlike (ground_hostFree True) (agree.agreeOn True) endures
    (entered code machine) hostFree
  exact alike.ensuring (left machine)

/-- At a depth a script depends on nested code only one deeper and in jails. -/
theorem script_endAlike_atDepth
    {accept : Builtin → Prop}
    {limits : Limits}
    {depth : Nat}
    {stops : Stop → Prop}
    {run other : Run σ}
    (agree : AgreeOn (.among accept limits) (Interpreter.AtDepth accept limits (depth + 1)) stops
      run other)
    (endures : ∀ code ownResult, Endures (Interpreter.AtDepth accept limits (depth + 1))
      (fun _ => True) (run code ownResult))
    (rounds : Nat)
    (code : Text)
    (ownResult : Bool)
    {machine : Machine σ}
    (standing : machine.interpreter.AtDepth accept limits depth) :
    EndAlike stops (script run rounds code ownResult) (script other rounds code ownResult)
      machine := by
  rw [EndAlike, script_apply, script_apply]
  have body : Composed (Scope.among (σ := σ) accept limits).toRealm _ :=
    .scriptBody rounds code ownResult machine.interpreter.active.isEmpty fun _ => True.intro
  have alike := body.endAlike (ground_among depth) agree endures (entered code machine)
    ⟨⟨standing.offers, standing.limits⟩, congrArg (· + 1) standing.depth⟩
  exact alike.ensuring (left machine)

/-! ## Calls that a script makes -/

theorem answering_of_ne
    {run : Run σ}
    {call : Call σ}
    {answer : EStateM.Result Stop (Machine σ) Text}
    {code : Text}
    {ownResult : Bool}
    {machine : Machine σ}
    (different : (⟨code, ownResult, machine⟩ : Call σ) ≠ call) :
    answering run call answer code ownResult machine = run code ownResult machine :=
  if_neg different

section Script

variable {fuel : Nat} {call next : Call σ}

/-- From an interpreter without host commands no call is made on one with host commands. -/
theorem Makes.hostFree
    (makes : Makes (fun run => script run fuel call.code call.ownResult) (evaluate fuel)
      call.machine next)
    (free : call.machine.interpreter.HostFree) :
    next.machine.interpreter.HostFree := by
  refine Classical.byContradiction fun notFree => ?_
  obtain ⟨answer, differs⟩ := makes
  have agree : AgreeUpTo (fun _ => False) (evaluate fuel)
      (answering (evaluate fuel) next answer) := by
    intro code ownResult machine machineFree
    left
    refine (answering_of_ne ?_).symm
    rintro rfl
    exact notFree machineFree
  rcases script_endAlike agree (LastingScript.trivial.evaluate fuel) fuel call.code
    call.ownResult call.machine free with same | ⟨_, _, impossible, _⟩
  · exact differs same.symm
  · exact impossible

/-- A stop of a nested call on the same interpreter stops the script that makes the call. -/
theorem Makes.stops
    (makes : Makes (fun run => script run fuel call.code call.ownResult) (evaluate fuel)
      call.machine next)
    (free : call.machine.interpreter.HostFree)
    (busy : next.machine.interpreter.active ≠ [])
    {stop : Stop}
    {stoppedAt : Machine σ}
    (stopped : evaluate fuel next.code next.ownResult next.machine = .error stop stoppedAt) :
    ∃ after,
      evaluate (fuel + 1) call.code call.ownResult call.machine = .error stop after := by
  obtain ⟨answer, differs⟩ := makes
  have agree : AgreeUpTo (· = stop) (evaluate fuel)
      (answering (evaluate fuel) next answer) := by
    intro code ownResult machine _
    by_cases isNext : (⟨code, ownResult, machine⟩ : Call σ) = next
    · subst isNext
      exact .inr ⟨busy, stop, stoppedAt, rfl, stopped⟩
    · exact .inl (answering_of_ne isNext).symm
  rcases script_endAlike agree (LastingScript.trivial.evaluate fuel) fuel call.code
    call.ownResult call.machine free with same | ⟨_, after, rfl, stops⟩
  · exact absurd same.symm differs
  · exact ⟨after, stops⟩

end Script

/-- A stop anywhere in the nesting on one interpreter stops the outermost call. -/
theorem Nested.stops
    {fuel remaining : Nat}
    {call inner : Call σ}
    (nested : Nested fuel call remaining inner)
    (free : call.machine.interpreter.HostFree)
    {stop : Stop}
    {stoppedAt : Machine σ}
    (stopped :
      evaluate remaining inner.code inner.ownResult inner.machine = .error stop stoppedAt) :
    ∃ after, evaluate fuel call.code call.ownResult call.machine = .error stop after := by
  induction nested with
  | here fuel call =>
      exact ⟨stoppedAt, stopped⟩
  | deeper makes busy _ inductionHypothesis =>
      obtain ⟨nextStoppedAt, nextStopped⟩ := inductionHypothesis (makes.hostFree free) stopped
      exact makes.stops free busy nextStopped

/-- A call that would nest evaluations beyond the limit stops at once. -/
theorem evaluate_tooDeep
    (remaining : Nat)
    (call : Call σ)
    (exceeds : call.machine.interpreter.limits.evaluations ≤ call.machine.interpreter.depth) :
    ∃ after,
      evaluate (remaining + 1) call.code call.ownResult call.machine =
        .error (.tooDeep ⟨call.machine.interpreter.limits.evaluations,
          call.machine.interpreter.depth + 1⟩) after := by
  obtain ⟨world, refused⟩ := script_of_beyond call.code call.ownResult exceeds
  exact ⟨_, refused (evaluate remaining) remaining⟩

end LittleScript.Eval
