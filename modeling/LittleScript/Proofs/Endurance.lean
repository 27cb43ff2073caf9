import LittleScript.Proofs.Lasting

namespace LittleScript

/-!
# What endures

Wherever a script can be, its interpreter has the limits it started with, no commands of other
kinds, and as many active evaluations as when the script was entered.  So an evaluation comes back
to where it started, and one knows in which ways it can stop.
-/

variable {σ α β : Type}

namespace Eval

/--
What is true of an interpreter wherever an action within a scope can be.  It hangs on the limits, the
commands and the active evaluations only, and what scripts do to these keeps it true.
-/
structure Ground (scope : Scope σ) (stands : Interpreter σ → Prop) : Prop where
  holds : ∀ {interpreter}, stands interpreter → scope.holds interpreter
  same : ∀ {before after : Interpreter σ}, stands before → after.limits = before.limits →
    after.functions = before.functions → after.commands = before.commands →
    after.active = before.active → stands after
  define : ∀ {interpreter} (name : Text) (parameters : List Text) (body : Text),
    stands interpreter → stands (interpreter.define name (.script parameters body))
  rename : ∀ {interpreter renamed : Interpreter σ} {old new : Text},
    interpreter.rename old new = .ok renamed → stands interpreter → stands renamed
  mark : ∀ {interpreter : Interpreter σ} (offset : Nat), stands interpreter →
    stands { interpreter with active := offset :: interpreter.active.tail }

/-- Steps stay on the ground. -/
theorem Ground.step
    {scope : Scope σ}
    {stands : Interpreter σ → Prop}
    (ground : Ground scope stands)
    {reach : FrameId → Bool}
    {update : Interpreter σ → Interpreter σ}
    (step : Step reach update)
    {interpreter : Interpreter σ}
    (standing : stands interpreter) :
    stands (update interpreter) := by
  cases step with
  | define name parameters body =>
      exact ground.define name parameters body standing
  | rename old new =>
      cases attempted : interpreter.rename old new with
      | error reason =>
          simpa [attempted, Except.toOption] using standing
      | ok renamed =>
          simpa [attempted, Except.toOption] using ground.rename attempted standing
  | mark offset =>
      exact ground.mark offset standing
  | _ =>
      exact ground.same standing rfl rfl rfl rfl

/-- An action comes back to the ground it started on, and stops only in some ways. -/
def Endures (stands : Interpreter σ → Prop) (stops : Stop → Prop) (action : Eval σ α) : Prop :=
  ∀ machine : Machine σ, stands machine.interpreter →
    stands (final action machine).interpreter ∧
      ∀ stop after, action machine = .error stop after → stops stop

namespace Endures

variable {stands : Interpreter σ → Prop} {stops : Stop → Prop}

/-- An action that yields a value. -/
theorem of_ok
    {action : Eval σ α}
    (yields : ∀ machine, stands machine.interpreter → ∃ value after,
      action machine = .ok value after ∧ stands after.interpreter) :
    Endures stands stops action := by
  intro machine standing
  obtain ⟨value, after, ran, stillStanding⟩ := yields machine standing
  rw [final_of_ok ran]
  exact ⟨stillStanding, fun stop _ stopped => nomatch ran.symm.trans stopped⟩

theorem pure
    (value : α) :
    Endures stands stops (Pure.pure value : Eval σ α) :=
  .of_ok fun machine standing => ⟨value, machine, rfl, standing⟩

theorem hasError :
    Endures stands stops (Eval.hasError (σ := σ)) :=
  .of_ok fun machine standing => ⟨_, machine, rfl, standing⟩

theorem bind
    {action : Eval σ α}
    {next : α → Eval σ β}
    (first : Endures stands stops action)
    (second : ∀ value, Endures stands stops (next value)) :
    Endures stands stops (action >>= next) := by
  intro machine standing
  have endures := first machine standing
  cases ran : action machine with
  | ok value between =>
      rw [final_of_ok ran] at endures
      have whole : (action >>= next) machine = next value between := bind_of_ok ran
      rw [final, whole]
      exact second value between endures.1
  | error stop after =>
      have whole : (action >>= next) machine = .error stop after := bind_of_error ran
      rw [final_of_error ran] at endures
      rw [final_of_error whole]
      refine ⟨endures.1, fun other ended stopped => ?_⟩
      cases whole.symm.trans stopped
      exact endures.2 stop after ran

/-- A run of an action that starts on other ground and comes back. -/
theorem of_ensuring
    {there : Interpreter σ → Prop}
    {action inner : Eval σ α}
    {machine start : Machine σ}
    {cleanup : Machine σ → Machine σ}
    (inside : Endures there stops inner)
    (runs : action machine = Eval.ensuring inner cleanup start)
    (enters : there start.interpreter)
    (leaves : ∀ after, there after.interpreter → stands (cleanup after).interpreter) :
    stands (final action machine).interpreter ∧
      ∀ stop after, action machine = .error stop after → stops stop := by
  have endures := inside start enters
  have back : final action machine = cleanup (final inner start) := by
    rw [← final_ensuring inner cleanup, final, runs, final]
  refine ⟨back ▸ leaves _ endures.1, fun stop after stopped => ?_⟩
  rw [runs, Eval.ensuring] at stopped
  cases ran : inner start with
  | ok value ended =>
      rw [ran] at stopped
      cases stopped
  | error other ended =>
      rw [ran] at stopped
      cases stopped
      exact endures.2 _ _ ran

end Endures

/--
Whatever is composed endures when the code nested in it does.  It stops as that does, by nesting too
deeply, or by a loop that does not end.
-/
theorem Composed.endures
    {scope : Scope σ}
    {stands : Interpreter σ → Prop}
    (ground : Ground scope stands)
    {stops : Stop → Prop}
    (tooDeep : ∀ error, stops (.tooDeep error))
    (loops : scope.allowed .whileLoop ∨ scope.allowed .forLoop → stops .exhausted)
    (jails : scope.allowed .jailEvaluate → ∀ stop, stops stop)
    {run : Run σ}
    (runEndures : ∀ code ownResult, Endures stands stops (run code ownResult))
    {action : Run σ → Eval σ α}
    (composed : Composed scope.toRealm action) :
    Endures stands stops (action run) := by
  induction composed with
  | pure value =>
      exact .pure value
  | bind _ _ firstEndures nextEndures =>
      exact firstEndures.bind nextEndures
  | consult view _ _ nextEndures =>
      exact fun machine standing =>
        nextEndures machine.interpreter (ground.holds standing) machine standing
  | step update =>
      exact .of_ok fun machine standing => ⟨(), _, rfl, ground.step update standing⟩
  | record offset reason =>
      refine .of_ok fun machine standing => ?_
      obtain ⟨error, world, raised⟩ := raiseAt_apply offset reason machine
      exact ⟨(), _, raised, ground.same standing rfl rfl rfl rfl⟩
  | drop _ =>
      exact .of_ok fun machine standing => ⟨(), _, rfl, ground.same standing rfl rfl rfl rfl⟩
  | ask answer =>
      exact .of_ok fun machine standing => ⟨_, _, rfl, standing⟩
  | observe view =>
      exact .of_ok fun machine standing => ⟨_, _, rfl, standing⟩
  | halt stop noCrash looping =>
      refine fun machine standing => ⟨standing, fun other after stopped => ?_⟩
      cases stopped
      cases stop with
      | tooDeep error => exact tooDeep error
      | crash => exact absurd rfl noCrash
      | exhausted => exact loops (looping rfl)
  | nested code ownResult =>
      exact runEndures code ownResult
  | inFrame frame down _ _ _ inside =>
      exact fun machine standing => inside.of_ensuring rfl (ground.same standing rfl rfl rfl rfl)
        fun _ stillStanding => ground.same stillStanding rfl rfl rfl rfl
  | inNewFrame frame _ _ inside =>
      exact fun machine standing => inside.of_ensuring rfl (ground.same standing rfl rfl rfl rfl)
        fun _ stillStanding => ground.same stillStanding rfl rfl rfl rfl
  | runWatch frame code _ =>
      have runs : Endures stands stops (do let _ ← run code true) :=
        (runEndures code true).bind fun _ => .pure ()
      simp only [Eval.runWatch]
      split
      · exact fun machine standing => runs.of_ensuring rfl (ground.same standing rfl rfl rfl rfl)
          fun _ stillStanding => ground.same stillStanding rfl rfl rfl rfl
      · exact .pure ()
  | inCatcher _ inside =>
      exact fun machine standing => inside.of_ensuring rfl (ground.same standing rfl rfl rfl rfl)
        fun _ stillStanding => ground.same stillStanding rfl rfl rfl rfl
  | catching code _ _ _ _ refusedEndures passedEndures caughtEndures =>
      refine .bind .hasError fun pending => ?_
      split
      · exact refusedEndures
      · refine .bind (runEndures code false) fun value => .bind .hasError fun failed => ?_
        split
        · refine .bind (.of_ok fun machine standing => ?_) fun _ => caughtEndures
          exact ⟨(), _, rfl, ground.same standing rfl rfl rfl rfl⟩
        · exact passedEndures value
  | @jail parent clean context code allowed _ =>
      intro machine standing
      have back : final (onInterpreter (jailInterpreter parent clean)
          (evaluateIn run context code)) machine = _ :=
        final_ensuring _ _ _
      rw [back]
      exact ⟨standing, fun stop _ _ => jails allowed stop⟩

/-- Whatever is composed and yields a value comes back to its ground. -/
theorem Composed.stands_of_ok
    {scope : Scope σ}
    {stands : Interpreter σ → Prop}
    (ground : Ground scope stands)
    {run : Run σ}
    (runEndures : ∀ code ownResult, Endures stands (fun _ => True) (run code ownResult))
    {action : Run σ → Eval σ α}
    (composed : Composed scope.toRealm action)
    {machine after : Machine σ}
    {value : α}
    (standing : stands machine.interpreter)
    (ran : action run machine = .ok value after) :
    stands after.interpreter := by
  have endures := composed.endures ground (fun _ => True.intro) (fun _ => True.intro)
    (fun _ _ => True.intro) runEndures machine standing
  rw [final_of_ok ran] at endures
  exact endures.1

/-! ## Scripts that call built-in commands of some kinds -/

end Eval

/-- A definition by which scripts get at accepted built-in commands only, and at no host's. -/
def Definition.Among (accept : Builtin → Prop) : Definition σ → Prop
  | .host _ => False
  | .builtin command => accept command
  | .script _ _ => True

/-- An interpreter with given limits whose commands are scripts and accepted built-in ones. -/
structure Interpreter.Within
    (accept : Builtin → Prop)
    (limits : Limits)
    (interpreter : Interpreter σ) : Prop where
  offers : interpreter.OffersOnly (Definition.Among accept)
  limits : interpreter.limits = limits

/-- Such an interpreter on which a number of evaluations are active. -/
structure Interpreter.AtDepth
    (accept : Builtin → Prop)
    (limits : Limits)
    (depth : Nat)
    (interpreter : Interpreter σ) : Prop extends interpreter.Within accept limits where
  depth : interpreter.depth = depth

theorem Interpreter.Within.hostFree
    {accept : Builtin → Prop}
    {limits : Limits}
    {interpreter : Interpreter σ}
    (within : interpreter.Within accept limits) :
    interpreter.HostFree :=
  hostFree_iff.mpr (within.offers.mono fun _ accepted _ isHost => by rwa [isHost] at accepted)

/-- Without host commands an interpreter is among those that offer any built-in command. -/
theorem Interpreter.HostFree.within
    {interpreter : Interpreter σ}
    (free : interpreter.HostFree) :
    interpreter.Within (fun _ => True) interpreter.limits where
  offers := (hostFree_iff.mp free).mono fun definition notHost => by
    cases definition with
    | host command => exact notHost command rfl
    | builtin command => exact True.intro
    | script parameters body => exact True.intro
  limits := rfl

namespace Eval

/-- The scope of scripts that call accepted built-in commands. -/
def Scope.among (accept : Builtin → Prop) (limits : Limits) : Scope σ where
  holds := Interpreter.Within accept limits
  reach _ := true
  allowed := accept
  drops := True
  free := Interpreter.Within.hostFree
  root := rfl
  current _ := rfl
  offers within named found := within.offers.of_get? named found
  up _ _ _ _ _ := rfl
  down _ _ _ _ _ := rfl

section Among

variable {accept : Builtin → Prop} {limits : Limits}

/-- While a script runs, as many evaluations are active as when it was entered. -/
theorem ground_among
    (depth : Nat) :
    Ground (σ := σ) (.among accept limits) (Interpreter.AtDepth accept limits (depth + 1)) where
  holds standing := standing.toWithin
  same standing sameLimits sameFunctions sameCommands sameActive := by
    refine ⟨⟨?_, sameLimits.trans standing.limits⟩, ?_⟩
    · intro entry member function found
      rw [sameCommands] at member
      rw [Interpreter.function?, sameFunctions] at found
      exact standing.offers entry member function found
    · rw [Interpreter.depth, sameActive]
      exact standing.depth
  define name _ _ standing :=
    ⟨⟨standing.offers.define name True.intro, standing.limits⟩, standing.depth⟩
  rename moved standing := by
    have offers := standing.offers.rename moved
    obtain ⟨functions, commands, rfl⟩ := Interpreter.rename_eq moved
    exact ⟨⟨offers, standing.limits⟩, standing.depth⟩
  mark offset standing := by
    refine ⟨⟨standing.offers, standing.limits⟩, ?_⟩
    have active := standing.depth
    simp only [Interpreter.depth, List.length_cons, List.length_tail] at active ⊢
    rw [active, Nat.add_sub_cancel]

/-- An evaluation beyond the limit stops at once, whatever would run its code. -/
theorem script_of_beyond
    (code : Text)
    (ownResult : Bool)
    {machine : Machine σ}
    (exceeds : machine.interpreter.limits.evaluations ≤ machine.interpreter.depth) :
    ∃ world, ∀ (run : Run σ) (rounds : Nat),
      script run rounds code ownResult machine =
        .error (.tooDeep ⟨machine.interpreter.limits.evaluations,
          machine.interpreter.depth + 1⟩)
          ⟨{ machine.interpreter with source := (entered code machine).interpreter.source },
            world⟩ := by
  have beyond : (entered code machine).interpreter.limits.evaluations <
      (entered code machine).interpreter.depth :=
    Nat.lt_succ_of_le exceeds
  have refused : ∃ world, guardDepth (entered code machine) =
      .error (.tooDeep ⟨machine.interpreter.limits.evaluations, machine.interpreter.depth + 1⟩)
        ⟨(entered code machine).interpreter, world⟩ := by
    rw [guardDepth, interpreter_bind_apply, if_pos beyond]
    exact ⟨_, rfl⟩
  obtain ⟨world, refused⟩ := refused
  refine ⟨world, fun run rounds => ?_⟩
  rw [script_apply, ensuring, scriptBody, bind_of_error refused]
  rfl

/--
Every evaluation comes back to the depth at which it started.  It stops only by nesting too deeply,
in loops and in jails, if it has enough fuel for as many evaluations as may still be nested.
-/
theorem evaluate_endures
    {stops : Stop → Prop}
    (tooDeep : ∀ error, stops (.tooDeep error))
    (loops : accept .whileLoop ∨ accept .forLoop → stops .exhausted)
    (jails : accept .jailEvaluate → ∀ stop, stops stop)
    (fuel : Nat) :
    ∀ depth, (0 < fuel ∧ limits.evaluations < fuel + depth ∨ stops .exhausted) →
      ∀ code ownResult,
        Endures (σ := σ) (Interpreter.AtDepth accept limits depth) stops
          (evaluate fuel code ownResult) := by
  induction fuel with
  | zero =>
      intro depth ample code ownResult machine standing
      refine ⟨standing, fun stop after stopped => ?_⟩
      cases stopped
      rcases ample with ⟨impossible, -⟩ | allowed
      · exact absurd impossible (Nat.lt_irrefl 0)
      · exact allowed
  | succ fuel inductionHypothesis =>
      intro depth ample code ownResult machine standing
      by_cases exceeds : limits.evaluations ≤ depth
      · have beyond : machine.interpreter.limits.evaluations ≤ machine.interpreter.depth := by
          rwa [standing.limits, standing.depth]
        obtain ⟨world, refused⟩ := script_of_beyond code ownResult beyond
        rw [evaluate, final_of_error (refused _ _)]
        refine ⟨⟨⟨standing.offers, standing.limits⟩, standing.depth⟩, fun stop ended stopped => ?_⟩
        cases (refused (evaluate fuel) fuel).symm.trans stopped
        exact tooDeep _
      · have room : 0 < fuel ∧ limits.evaluations < fuel + (depth + 1) ∨ stops .exhausted := by
          refine ample.imp_left fun enough => ⟨?_, ?_⟩
          · omega
          · omega
        have body : Composed (Scope.among (σ := σ) accept limits).toRealm _ :=
          .scriptBody fuel code ownResult machine.interpreter.active.isEmpty fun _ => True.intro
        have endures := body.endures (ground_among depth) tooDeep loops jails
          (inductionHypothesis (depth + 1) room)
        refine endures.of_ensuring (script_apply ..)
          ⟨⟨standing.offers, standing.limits⟩, congrArg (· + 1) standing.depth⟩ ?_
        exact fun after ended => ⟨⟨ended.offers, ended.limits⟩, standing.depth⟩

/-- With any fuel an evaluation comes back to the depth at which it started. -/
theorem evaluate_comesBack
    (fuel depth : Nat)
    (code : Text)
    (ownResult : Bool) :
    Endures (σ := σ) (Interpreter.AtDepth accept limits depth) (fun _ => True)
      (evaluate fuel code ownResult) :=
  evaluate_endures (fun _ => True.intro) (fun _ => True.intro) (fun _ _ => True.intro) fuel depth
    (.inr True.intro) code ownResult

end Among

end Eval

end LittleScript
