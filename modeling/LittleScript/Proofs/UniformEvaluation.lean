import LittleScript.Proofs.UniformCommands

namespace LittleScript

/-!
# Evaluation is uniform

Commands are called alike at two depths, and so are scripts run, with one exception for each side:
the shallow evaluation may be barred from going down, and the deep one may be nested too deeply.
-/

/-- How the shallow evaluation goes down: not at all if it is barred. -/
def Terms.descent {σ : Type} (terms : Terms) : Eval.Descent σ := fun run code =>
  match terms.barrier with
  | some stop => throw stop
  | none => Eval.downEvaluate run code

/-- The terms on which an evaluation that crashes where it goes down is compared with others. -/
def Terms.crashing : Terms where
  barrier := some .crash
  sameLog := true
  hosts := false
  escapes := by simp

/-- The footing on which two evaluations at the same place are compared. -/
def Footing.single (active : List Nat) : Footing where
  shallow := active
  deep := active
  sameOutermost := rfl
  notHigher := Nat.le_refl _
  inside := false
  sameDown := true

namespace Eval

open Source (Cursor)

variable {σ : Type} {terms : Terms} {footing : Footing} {shallow deep : Run σ}
  {descent : Descent σ}

/-- Wherever an evaluation runs above, one is the only one if the other is. -/
theorem Matches.active_eq_singleton_iff
    {first second : Machine σ}
    (alike : Matches terms footing first second)
    (inside : footing.inside = true)
    (start : Nat) :
    second.interpreter.active = [start] ↔ first.interpreter.active = [start] := by
  obtain ⟨above, down, records, active, nested, -, -, -, -⟩ := alike
  rw [active]
  cases above with
  | nil =>
      exact absurd rfl (nested inside)
  | cons innermost others =>
      simp only [Machine.shifted, List.cons_append, List.cons.injEq, List.append_eq_nil_iff,
        footing.deep_eq_nil_iff]

/-- Where several evaluations are running, an error is raised at the command of the outermost. -/
theorem raiseInnermost_of_several
    (offset : Int)
    (reason : Reason)
    {machine : Machine σ}
    (several : ∀ start, machine.interpreter.active ≠ [start]) :
    raiseInnermost offset reason machine = raise reason machine := by
  rw [raiseInnermost, inspect_bind_apply]
  rcases running : machine.interpreter.active with _ | ⟨start, _ | ⟨outer, others⟩⟩
  · rfl
  · exact absurd running (several start)
  · rfl

/-- Where several evaluations are running, the host is not told about an error. -/
theorem reportError_of_several
    {machine : Machine σ}
    (several : ∀ start, machine.interpreter.active ≠ [start]) :
    reportError machine = .ok () machine := by
  rw [reportError, interpreter_bind_apply]
  rcases running : machine.interpreter.active with _ | ⟨start, _ | ⟨outer, others⟩⟩
  · rfl
  · exact absurd running (several start)
  · rfl

namespace Alike

/-- Going down is alike as far as the shallow evaluation is not barred. -/
theorem descend
    (unbarred : terms.barrier = none → descent = downEvaluate)
    (runs : RunsAlike terms shallow deep)
    (code : Text) :
    Alike terms footing (terms.descent shallow code) (descent deep code) := by
  intro first second alike
  rw [Terms.descent]
  cases isBarrier : terms.barrier with
  | some stop =>
      exact .barred _ _ isBarrier
  | none =>
      have visited : footing.sameDown = true := by
        refine alike.fit.barred.resolve_right ?_
        rintro ⟨stop, isSome⟩
        rw [isBarrier] at isSome
        cases isSome
      have sameDown : second.interpreter.down = first.interpreter.down := by
        obtain ⟨_, _, _, _, _, sameDown, _, _, _⟩ := alike
        exact sameDown visited
      rw [unbarred isBarrier]
      simp only
      rw [downEvaluate, downEvaluate, inspect_bind_apply, inspect_bind_apply, sameDown]
      cases first.interpreter.down with
      | none =>
          exact runs footing code false _ _ alike
      | some down =>
          exact inFrame down none (runs _ code false) _ _ alike

/-! ## Host commands -/

theorem raiseInnermost
    (inside : footing.inside = true)
    (offset : Int)
    (reason : Reason) :
    Alike (σ := σ) terms footing (Eval.raiseInnermost offset reason)
      (Eval.raiseInnermost offset reason) := by
  intro first second alike
  have single := alike.active_eq_singleton_iff inside
  by_cases isAlone : ∃ start, first.interpreter.active = [start]
  · obtain ⟨start, alone⟩ := isAlone
    have noneBelow : footing.shallow = [] := by
      obtain ⟨above, _, _, active, nested, _, _, _, _⟩ := alike
      cases above with
      | nil =>
          exact absurd rfl (nested inside)
      | cons innermost others =>
          rw [active] at alone
          exact (List.append_eq_nil_iff.mp (List.cons.inj alone).2).2
    rw [Eval.raiseInnermost, inspect_bind_apply, inspect_bind_apply, alone,
      (single start).mpr alone]
    exact raiseAt offset reason (by simp [noneBelow]) first second alike
  · rw [raiseInnermost_of_several offset reason fun start alone => isAlone ⟨start, alone⟩,
      raiseInnermost_of_several offset reason fun start alone =>
        isAlone ⟨start, (single start).mp alone⟩]
    exact raise reason first second alike

theorem modifyRecord
    (message : String) :
    Alike (σ := σ) terms footing (modify (frameRecord message)) (modify (frameRecord message)) :=
  fun _ _ alike => .ok (alike.frameRecord message)

theorem pushFrame :
    Alike (σ := σ) terms footing Eval.pushFrame Eval.pushFrame :=
  .bind (.change _ (fun _ _ _ => rfl) fun _ kept => ⟨kept.offers, kept.heeds, kept.placed⟩)
    fun _ => .modifyRecord _

theorem popFrame :
    Alike (σ := σ) terms footing Eval.popFrame Eval.popFrame := by
  have asUniform : Uniform (σ := σ) terms footing fun _ => Eval.popFrame := by
    refine .look (fun _ _ _ _ => rfl) fun interpreter _ => ?_
    split
    · exact .pure _
    · exact .bind (.change _ (fun _ _ _ => rfl) fun _ kept =>
        ⟨kept.offers, kept.heeds, kept.placed⟩) fun _ => .of_alike (.modifyRecord _)
  exact asUniform.alike (fun _ _ => Pure.pure []) (fun _ _ => Pure.pure []) fun _ _ _ => .pure _

/-- Quiet host commands are alike where they may go down. -/
theorem performVia
    (unbarred : terms.barrier = none → descent = Eval.downEvaluate)
    (runs : RunsAlike terms shallow deep)
    (inside : footing.inside = true)
    (action : HostAction σ)
    (quiet : action.Quiet) :
    Alike terms footing (Eval.performVia (terms.descent shallow) shallow action)
      (Eval.performVia (descent deep) deep action) := by
  have together : ∀ {α : Type} {action : Run σ → Eval σ α},
      Uniform terms footing action → Alike terms footing (action shallow) (action deep) :=
    fun uniform => uniform.alike shallow deep runs
  induction action with
  | reply answer => exact .pure answer
  | crash => exact .stop .crash
  | touch update next inductionHypothesis =>
      exact .bind (.touch (.inr quiet.1)) fun _ => inductionHypothesis quiet.2
  | run code ownResult next inductionHypothesis =>
      exact .bind (runs footing code ownResult) fun value => inductionHypothesis _ (quiet value)
  | evaluate code next inductionHypothesis =>
      rw [Eval.performVia, Eval.performVia]
      refine .bind (.evaluateIn runs .background code) fun evaluated => ?_
      split
      · exact inductionHypothesis _ (quiet _)
      · exact inductionHypothesis _ (quiet _)
  | raise message next inductionHypothesis =>
      exact .bind (.raise _) fun _ => inductionHypothesis quiet
  | raiseAt offset message next inductionHypothesis =>
      exact .bind (.raiseInnermost inside offset _) fun _ => inductionHypothesis quiet
  | pendingError next inductionHypothesis =>
      exact .consult _ (fun _ _ _ => rfl) fun _ _ => inductionHypothesis _ (quiet _)
  | clearError next inductionHypothesis =>
      exact .bind .clearError fun _ => inductionHypothesis quiet
  | pushFrame next inductionHypothesis =>
      exact .bind .pushFrame fun _ => inductionHypothesis quiet
  | popFrame next inductionHypothesis =>
      exact .bind .popFrame fun _ => inductionHypothesis quiet
  | frameDepth next inductionHypothesis =>
      refine .consult _ (fun interpreter active down => ?_) fun _ _ =>
        inductionHypothesis _ (quiet _)
      exact congrArg (List.length · - 1) (interpreter.ancestry_shifted active down _ _)
  | frameFunction next inductionHypothesis =>
      exact .consult _ (fun _ _ _ => rfl) fun _ _ => inductionHypothesis _ (quiet _)
  | setVariable name value mode next inductionHypothesis =>
      exact .bind (together (.setVariable name value mode)) fun stored =>
        inductionHypothesis _ (quiet stored)
  | watch name code next inductionHypothesis =>
      exact .bind (together (.watch name code)) fun _ => inductionHypothesis quiet
  | upEvaluate code next inductionHypothesis =>
      exact .bind (together (.upEvaluate code)) fun value => inductionHypothesis _ (quiet value)
  | downEvaluate code next inductionHypothesis =>
      exact .bind (.descend unbarred runs code) fun value => inductionHypothesis _ (quiet value)
  | topEvaluate code next inductionHypothesis =>
      exact .bind (together (.topEvaluate code)) fun value => inductionHypothesis _ (quiet value)
  | isolatedEvaluate code imports exports next inductionHypothesis =>
      exact .bind (together (.isolatedEvaluate code imports exports)) fun value =>
        inductionHypothesis _ (quiet value)

/-! ## Calling commands -/

theorem callBuiltinVia
    (unbarred : terms.barrier = none → descent = Eval.downEvaluate)
    (runs : RunsAlike terms shallow deep)
    (rounds : Nat)
    (command : Builtin)
    (arguments : List Text) :
    Alike terms footing
      (Eval.callBuiltinVia (terms.descent shallow) shallow rounds command arguments)
      (Eval.callBuiltinVia (descent deep) deep rounds command arguments) := by
  rw [Eval.callBuiltinVia.eq_def, Eval.callBuiltinVia.eq_def]
  split
  · simp only [Command.joined]
    split
    · exact .pure _
    · exact .bind (.descend unbarred runs _) fun _ => .pure _
  · next stays =>
    exact (Uniform.callBuiltin rounds stays arguments).alike shallow deep runs

/-- Calling a command is alike, from the evaluation above those below if it may be a host's. -/
theorem dispatchVia
    (unbarred : terms.barrier = none → descent = Eval.downEvaluate)
    (runs : RunsAlike terms shallow deep)
    (inside : terms.hosts = true → footing.inside = true)
    (rounds : Nat)
    (command : List Text) :
    Alike terms footing (Eval.dispatchVia terms.descent shallow rounds command)
      (Eval.dispatchVia descent deep rounds command) := by
  have together : ∀ {α : Type} {action : Run σ → Eval σ α},
      Uniform terms footing action → Alike terms footing (action shallow) (action deep) :=
    fun uniform => uniform.alike shallow deep runs
  intro first second alike
  have sameCommands := alike.view_eq Interpreter.commands fun _ _ _ => rfl
  have sameFunctions := alike.view_eq Interpreter.function? fun _ _ _ => rfl
  have sameCatcher := alike.view_eq Interpreter.catcher fun _ _ _ => rfl
  rw [Eval.dispatchVia, Eval.dispatchVia, interpreter_bind_apply, interpreter_bind_apply,
    sameCommands, sameFunctions, sameCatcher]
  cases known : first.interpreter.commands.get? (command.headD []) with
  | none =>
      cases (command.headD []).isEmpty with
      | true =>
          exact .ok alike
      | false =>
          cases first.interpreter.catcher.isEmpty with
          | true =>
              exact bind (.raise _) (fun _ => .pure _) _ _ alike
          | false =>
              exact together (.callCatcher command) _ _ alike
  | some id =>
      simp only
      cases found : first.interpreter.function? id with
      | none =>
          exact .ok alike
      | some function =>
          obtain ⟨currentName, definition⟩ := function
          cases definition with
          | builtin builtin =>
              exact bind (.callBuiltinVia unbarred runs rounds builtin _)
                (fun reply => together (.settle reply)) _ _ alike
          | host action =>
              obtain ⟨hosts, quiet⟩ := alike.kept.offers.of_get? known found
              exact bind (.performVia unbarred runs (inside hosts) _ (quiet _))
                (fun reply => together (.settle reply)) _ _ alike
          | script parameters body =>
              exact together (.callScript ..) _ _ alike

/-! ## Around commands -/

/-- Of two evaluations, the one nested too deeply is the deep one, or both are. -/
theorem guardDepth :
    Alike (σ := σ) terms footing Eval.guardDepth Eval.guardDepth := by
  intro first second alike
  have sameLimits := alike.view_eq Interpreter.limits fun _ _ _ => rfl
  have depths : first.interpreter.depth + footing.deep.length =
      second.interpreter.depth + footing.shallow.length := by
    obtain ⟨above, down, records, active, _, _, _, _, _⟩ := alike
    simp only [Interpreter.depth, Machine.shifted, active, List.length_append]
    omega
  by_cases deeper : footing.shallow.length < footing.deep.length
  · by_cases within : second.interpreter.depth ≤ second.interpreter.limits.evaluations
    · have shallowWithin : first.interpreter.depth ≤ first.interpreter.limits.evaluations := by
        rw [sameLimits] at within
        omega
      rw [guardDepth_of_within within, guardDepth_of_within shallowWithin]
      exact .ok alike
    · obtain ⟨after, stopped⟩ := guardDepth_of_beyond (Nat.lt_of_not_le within)
      rw [stopped]
      exact .tooDeep _ _ deeper
  · have sameDepth : second.interpreter.depth = first.interpreter.depth := by
      have := footing.notHigher
      omega
    rw [Eval.guardDepth, interpreter_bind_apply, interpreter_bind_apply, sameLimits, sameDepth]
    split
    · exact bind (.log _ _) (fun _ => .stop _) _ _ alike
    · exact .ok alike

/-- The host is told about the error of the outermost evaluation, which is so at both depths. -/
theorem reportError
    (inside : footing.inside = true) :
    Alike (σ := σ) terms footing Eval.reportError Eval.reportError := by
  intro first second alike
  have single := alike.active_eq_singleton_iff inside
  by_cases isAlone : ∃ start, first.interpreter.active = [start]
  · obtain ⟨start, alone⟩ := isAlone
    have sameError := alike.view_eq Interpreter.error fun _ _ _ => rfl
    have sameCallbacks := alike.view_eq Interpreter.callbacks fun _ _ _ => rfl
    rw [Eval.reportError, interpreter_bind_apply, interpreter_bind_apply, sameError,
      sameCallbacks, alone, (single start).mpr alone]
    cases first.interpreter.error with
    | none =>
        exact .ok alike
    | some error =>
        cases isHandle : first.interpreter.callbacks.error with
        | none =>
            exact .ok alike
        | some handle =>
            exact touch (alike.kept.answers (.error error isHandle)) _ _ alike
  · rw [reportError_of_several fun start alone => isAlone ⟨start, alone⟩,
      reportError_of_several fun start alone => isAlone ⟨start, (single start).mp alone⟩]
    exact .ok alike

end Alike

namespace Uniform

theorem prepare
    (ownResult outermost : Bool) :
    Uniform (σ := σ) terms footing fun _ => Eval.prepare ownResult outermost := by
  have resumes : Uniform (σ := σ) terms footing fun _ =>
      if ownResult then
        Eval.change fun interpreter =>
          interpreter.updateCurrent fun frame => { frame with stopping := false }
      else Pure.pure () := by
    split
    · exact updateCurrent _
    · exact .pure _
  simp only [Eval.prepare]
  split
  · exact .bind (of_alike .clearError) fun _ => resumes
  · exact resumes

theorem settleValue
    (ownResult : Bool)
    (value : Text) :
    Uniform (σ := σ) terms footing fun _ => Eval.settleValue ownResult value := by
  have takes : Uniform (σ := σ) terms footing fun _ => takeResult := by
    refine look (fun _ _ _ _ => rfl) fun interpreter _ => ?_
    split
    · exact .pure _
    · exact .bind (updateCurrent _) fun _ => .pure _
  simp only [Eval.settleValue]
  split
  · exact .bind takes fun _ => .pure _
  · exact .pure _

theorem nextCommand
    {reader : Reader}
    (bottom : reader.outermost = true → footing.shallow = [])
    (cursor : Cursor) :
    Uniform (σ := σ) terms footing fun _ => Eval.nextCommand reader cursor :=
  .bind (skipBlanks bottom _) fun _ => skipBlanks bottom _

end Uniform

/-! ## Scripts -/

namespace Alike

section Reading

variable {call deepCall : List Text → Eval σ Text} {reader : Reader}

theorem commandAtVia
    (runs : RunsAlike terms shallow deep)
    (inside : footing.inside = true)
    (bottom : reader.outermost = true → footing.shallow = [])
    (calls : ∀ command, Alike terms footing (call command) (deepCall command))
    (bound : Nat)
    (cursor : Cursor) :
    Alike terms footing (Eval.commandAtVia call shallow bound reader cursor)
      (Eval.commandAtVia deepCall deep bound reader cursor) := by
  have together : ∀ {α : Type} {action : Run σ → Eval σ α},
      Uniform terms footing action → Alike terms footing (action shallow) (action deep) :=
    fun uniform => uniform.alike shallow deep runs
  refine .bind (.markCommand inside _) fun _ => .bind .cancellation fun cause => ?_
  cases cause with
  | some cause =>
      exact .bind (.raise _) fun _ => .pure _
  | none =>
      refine .bind (together (.words bottom bound cursor)) fun read => ?_
      cases read with
      | none =>
          exact .pure _
      | some read =>
          have goOn : ∀ value : Text, Uniform (σ := σ) terms footing fun _ =>
              Eval.isStopping >>= fun stopping =>
                if stopping then Pure.pure (value, none)
                else Eval.nextCommand reader read.2 >>= fun next =>
                  Pure.pure (value, some next) := by
            intro value
            refine .ifStopping fun stopping => ?_
            split
            · exact .pure _
            · exact .bind (.nextCommand bottom _) fun _ => .pure _
          refine .consult _ (fun _ _ _ => rfl) fun _ _ => ?_
          split
          · exact .pure _
          · split
            · exact .bind (.pure _) fun value => together (goOn value)
            · exact .bind (calls _) fun value => together (goOn value)

theorem commandsVia
    (runs : RunsAlike terms shallow deep)
    (inside : footing.inside = true)
    (bottom : reader.outermost = true → footing.shallow = [])
    (calls : ∀ command, Alike terms footing (call command) (deepCall command))
    (depth bound : Nat) :
    ∀ (cursor : Cursor) (last : Text),
      Alike terms footing (Eval.commandsVia call shallow reader depth bound cursor last)
        (Eval.commandsVia deepCall deep reader depth bound cursor last) := by
  induction bound with
  | zero =>
      intro cursor last
      exact .pure _
  | succ bound inductionHypothesis =>
      intro cursor last
      refine .consult _ (fun _ _ _ => rfl) fun _ _ => ?_
      split
      · exact .pure _
      · refine .bind (.commandAtVia runs inside bottom calls depth cursor) fun ran => ?_
        obtain ⟨value, next⟩ := ran
        cases next with
        | none =>
            exact .pure _
        | some next =>
            exact inductionHypothesis next value

theorem scriptBodyVia
    (runs : RunsAlike terms shallow deep)
    (inside : footing.inside = true)
    (calls : ∀ command, Alike terms footing (call command) (deepCall command))
    (code : Text)
    (ownResult : Bool)
    {outermost : Bool}
    (bottom : outermost = true → footing.shallow = []) :
    Alike terms footing (Eval.scriptBodyVia call shallow code ownResult outermost)
      (Eval.scriptBodyVia deepCall deep code ownResult outermost) := by
  have together : ∀ {α : Type} {action : Run σ → Eval σ α},
      Uniform terms footing action → Alike terms footing (action shallow) (action deep) :=
    fun uniform => uniform.alike shallow deep runs
  have atBottom : (⟨outermost, false⟩ : Reader).outermost = true → footing.shallow = [] := bottom
  exact .bind .guardDepth fun _ => .bind (together (.prepare ownResult outermost)) fun _ =>
    .bind (together (.skipBlanks atBottom _)) fun _ =>
      .bind (.commandsVia runs inside atBottom calls _ _ _ _) fun value =>
        .bind (.reportError inside) fun _ => together (.settleValue ownResult value)

end Reading

/-- A script is alike if the commands in it are. -/
theorem scriptVia
    {call deepCall : List Text → Eval σ Text}
    (runs : RunsAlike terms shallow deep)
    (calls : ∀ command, Alike terms footing.within (call command) (deepCall command))
    (code : Text)
    (ownResult : Bool) :
    Alike terms footing (Eval.scriptVia call shallow code ownResult)
      (Eval.scriptVia deepCall deep code ownResult) := by
  intro first second alike
  have sameEmpty := alike.isEmpty_active
  rw [Eval.scriptVia, Eval.scriptVia, sameEmpty]
  obtain ⟨above, down, records, active, nested, sameDown, sameLog, fit, kept⟩ := alike
  have bottom : first.interpreter.active.isEmpty = true → footing.shallow = [] := by
    rw [active, List.isEmpty_iff]
    exact fun empty => (List.append_eq_nil_iff.mp empty).2
  have keptInside : Kept terms footing.within (entered code first).interpreter := by
    refine ⟨kept.offers, kept.heeds, fun start isStart error pending => ?_⟩
    have notEmpty : first.interpreter.active.isEmpty = false := by
      rw [Bool.eq_false_iff]
      intro empty
      rw [show footing.within.shallow = footing.shallow from rfl, bottom empty] at isStart
      cases isStart
    simp only [entered, notEmpty, Bool.false_eq_true, if_false]
    exact kept.placed start isStart error pending
  have enters : Matches terms footing.within (entered code first)
      (entered code (first.shifted (above ++ footing.deep) down records)) := by
    have shifted : entered code (first.shifted (above ++ footing.deep) down records) =
        (entered code first).shifted (0 :: above ++ footing.deep) down records := by
      have sameEmpty : (above ++ footing.deep).isEmpty = first.interpreter.active.isEmpty :=
        sameEmpty
      simp only [entered, Machine.shifted, List.cons_append, sameEmpty]
    rw [shifted]
    exact .of (entered code first) (0 :: above) down records (by simp [entered, active, Footing.within])
      (by simp) sameDown sameLog ⟨fit.level, fit.barred⟩ keptInside
  refine (scriptBodyVia runs rfl calls code ownResult bottom _ _ enters).ensuring id ?_
  rintro after _ ⟨_, downAfter, recordsAfter, _, _, sameDownAfter, sameLogAfter, _, keptAfter⟩
  exact .of (left first after) above downAfter recordsAfter active nested sameDownAfter
    sameLogAfter fit ⟨keptAfter.offers, keptAfter.heeds, keptAfter.placed⟩

end Alike

/-- All code is alike at two depths, however the deep evaluation goes down if the other is barred. -/
theorem runsAlikeVia
    (unbarred : terms.barrier = none → descent = downEvaluate)
    (fuel : Nat) :
    RunsAlike terms (evaluateVia (dispatchVia terms.descent) fuel)
      (evaluateVia (dispatchVia descent) fuel) := by
  induction fuel with
  | zero =>
      exact fun _ _ _ => .stop .exhausted
  | succ fuel inductionHypothesis =>
      exact fun footing code ownResult => .scriptVia inductionHypothesis
        (fun command => .dispatchVia unbarred inductionHypothesis (fun _ => rfl) fuel command)
        code ownResult

/-- All code is alike at two depths. -/
theorem runsAlike
    (terms : Terms)
    (fuel : Nat) :
    RunsAlike (σ := σ) terms (evaluateVia (dispatchVia terms.descent) fuel) (evaluate fuel) := by
  rw [← evaluateVia_downEvaluate]
  exact runsAlikeVia (fun _ => rfl) fuel

/-! ## Evaluations at the same place -/

/-- A machine without host commands matches itself. -/
theorem Matches.self
    (exact : terms.sameLog = true)
    {machine : Machine σ}
    (free : machine.interpreter.HostFree)
    (noError : machine.interpreter.error = none) :
    Matches terms (.single machine.interpreter.active) machine machine := by
  have kept : Kept terms (.single machine.interpreter.active) machine.interpreter := by
    refine ⟨(Interpreter.hostFree_iff.mp free).mono fun definition noHost => ?_, .inl exact, ?_⟩
    · cases definition with
      | host command => exact absurd rfl (noHost command)
      | _ => trivial
    · intro _ _ error pending
      rw [noError] at pending
      cases pending
  exact .of machine [] machine.interpreter.down machine.world.records rfl
    (fun inside => nomatch inside) (fun _ => rfl) (fun _ => rfl) ⟨fun _ => rfl, .inl rfl⟩ kept

/-- Machines that match at the same place are the same. -/
theorem Matches.eq_of_single
    (exact : terms.sameLog = true)
    {active : List Nat}
    {first second : Machine σ}
    (alike : Matches terms (.single active) first second) :
    second = first := by
  obtain ⟨above, down, records, isActive, -, sameDown, sameLog, -, -⟩ := alike
  have sameActive : above ++ (Footing.single active).deep = first.interpreter.active :=
    isActive.symm
  rw [sameActive, sameDown rfl, sameLog exact]
  rfl

/-- What crashes where an evaluation goes down. -/
def barred : Descent σ := fun _ _ => throw .crash

/-- Code never goes down if it does not come to a crash where it does. -/
theorem NeverDescends.of_barred
    {fuel : Nat}
    {code : Text}
    {ownResult : Bool}
    {machine : Machine σ}
    (free : machine.interpreter.HostFree)
    (noError : machine.interpreter.error = none)
    (passes : ∀ after,
      evaluateVia (dispatchVia barred) fuel code ownResult machine ≠ .error .crash after) :
    NeverDescends fuel code ownResult machine := by
  have same : ∀ descent : Descent σ,
      evaluateVia (dispatchVia descent) fuel code ownResult machine =
        evaluateVia (dispatchVia barred) fuel code ownResult machine := by
    intro descent
    have unbarred : Terms.crashing.barrier = none → descent = downEvaluate := by
      intro isNone
      cases isNone
    have ends := runsAlikeVia unbarred fuel (.single machine.interpreter.active) code ownResult
      machine machine (.self rfl free noError)
    have isBarred : Terms.crashing.descent = barred (σ := σ) := rfl
    rw [isBarred] at ends
    have level : ¬ (Footing.single machine.interpreter.active).shallow.length <
        (Footing.single machine.interpreter.active).deep.length := Nat.lt_irrefl _
    generalize ranBarred : evaluateVia (dispatchVia barred) fuel code ownResult machine =
      shallow at ends passes
    generalize evaluateVia (dispatchVia descent) fuel code ownResult machine = deep at ends
    cases ends
    case ok alike => rw [alike.eq_of_single rfl]
    case error alike => rw [alike.eq_of_single rfl]
    case barred stop after isBar =>
      cases isBar
      exact absurd rfl (passes after)
    case tooDeep deeper => exact absurd deeper level
  intro descent
  rw [same descent, ← evaluateVia_downEvaluate, same downEvaluate]

end Eval

end LittleScript
