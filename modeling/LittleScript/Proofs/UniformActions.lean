import LittleScript.Proofs.Serving
import LittleScript.Proofs.TwoDepths

namespace LittleScript.Eval

/-!
# Uniform actions

What an evaluation does by itself is uniform: it reads and changes an interpreter apart from the
commands that other evaluations have reached, it raises errors at the command of the outermost
evaluation, which is the same at both depths, and it puts back what it has changed about where it
is.
-/

variable {σ α β : Type} {terms : Terms} {footing : Footing}

namespace Matches

variable {first second : Machine σ}

theorem kept
    (alike : Matches terms footing first second) :
    Kept terms footing first.interpreter := by
  obtain ⟨_, _, _, _, _, _, _, _, kept⟩ := alike
  exact kept

theorem fit
    (alike : Matches terms footing first second) :
    Comparable terms footing := by
  obtain ⟨_, _, _, _, _, _, _, fit, _⟩ := alike
  exact fit

/-- What does not hang on the evaluations below looks the same on matching machines. -/
theorem view_eq
    (alike : Matches terms footing first second)
    (view : Interpreter σ → α)
    (blind : ∀ interpreter active down,
      view { interpreter with active, down } = view interpreter) :
    view second.interpreter = view first.interpreter := by
  obtain ⟨_, _, _, _, _, _, _, _, _⟩ := alike
  exact blind first.interpreter _ _

/-- The outermost evaluation below, if there is one, is the outermost of all. -/
theorem start_eq
    (alike : Matches terms footing first second)
    {start : Nat}
    (isStart : footing.shallow.getLast? = some start) :
    first.interpreter.active.getLast?.getD 0 = start := by
  obtain ⟨above, _, _, active, _, _, _, _, _⟩ := alike
  rw [active, List.getLast?_append, isStart]
  rfl

/-- Where no evaluation is running, both are at the same depth. -/
theorem level_of_idle
    (alike : Matches terms footing first second)
    (idle : first.interpreter.active = []) :
    footing.shallow.length = footing.deep.length := by
  obtain ⟨_, _, _, active, _, _, _, _, _⟩ := alike
  have noneBelow := (List.append_eq_nil_iff.mp (active.symm.trans idle)).2
  rw [noneBelow, footing.deep_eq_nil_iff.mpr noneBelow]

/-- A record of the log that tells how deeply evaluations are nested. -/
theorem frameRecord
    (alike : Matches terms footing first second)
    (message : String) :
    Matches terms footing (Eval.frameRecord message first) (Eval.frameRecord message second) := by
  obtain ⟨above, down, records, active, nested, sameDown, sameLog, fit, kept⟩ := alike
  refine .of (Eval.frameRecord message first) above down (_ :: records) active nested
    sameDown (fun exact => ?_) fit kept
  have sameDepth : (above ++ footing.deep).length = first.interpreter.active.length := by
    rw [active, List.length_append, List.length_append, fit.level exact]
  simp only [Eval.frameRecord, Machine.shifted, World.record, Interpreter.depth, sameDepth,
    sameLog exact]

end Matches

namespace Alike

/-- Looking something up that does not hang on the evaluations below. -/
theorem consult
    (view : Interpreter σ → α)
    (blind : ∀ interpreter active down,
      view { interpreter with active, down } = view interpreter)
    {shallowNext deepNext : α → Eval σ β}
    (next : ∀ interpreter, Kept terms footing interpreter →
      Alike terms footing (shallowNext (view interpreter)) (deepNext (view interpreter))) :
    Alike terms footing (Eval.inspect view >>= shallowNext) (Eval.inspect view >>= deepNext) := by
  intro first second alike
  rw [inspect_bind_apply, inspect_bind_apply, alike.view_eq view blind]
  exact next first.interpreter alike.kept first second alike

theorem change
    (update : Interpreter σ → Interpreter σ)
    (blind : ∀ interpreter active down,
      update { interpreter with active, down } = { update interpreter with active, down })
    (keeps : ∀ interpreter, Kept terms footing interpreter →
      Kept terms footing (update interpreter)) :
    Alike terms footing (Eval.change update) (Eval.change update) :=
  fun _ _ alike => .ok (alike.change update blind keeps)

theorem ask
    {answer : World σ → α × World σ}
    (heeds : terms.Heeds answer) :
    Alike terms footing (Eval.ask answer) (Eval.ask answer) := by
  intro first second alike
  obtain ⟨sameAnswer, asked⟩ := alike.ask heeds
  have answers : ∀ machine : Machine σ, Eval.ask answer machine =
      .ok (answer machine.world).1 { machine with world := (answer machine.world).2 } :=
    fun _ => rfl
  rw [answers, answers, sameAnswer]
  exact .ok asked

theorem touch
    {update : World σ → World σ}
    (heeds : terms.Heeds fun world => ((), update world)) :
    Alike terms footing (Eval.touch update) (Eval.touch update) :=
  ask heeds

theorem log
    (message : String)
    (fields : List (String × LogValue)) :
    Alike (σ := σ) terms footing (Eval.log message fields) (Eval.log message fields) :=
  touch (.inr fun _ _ => ⟨_, rfl⟩)

/-- Raising an error at an offset, which is that of the outermost evaluation below, if any. -/
theorem raiseAt
    (offset : Int)
    (reason : Reason)
    (placed : ∀ start, footing.shallow.getLast? = some start → offset = start) :
    Alike (σ := σ) terms footing (Eval.raiseAt offset reason) (Eval.raiseAt offset reason) := by
  have asConsult : Eval.raiseAt (σ := σ) offset reason = Eval.inspect Interpreter.error >>=
      fun pending => if pending.isNone then
        (Eval.change fun interpreter =>
          { interpreter with error := some (.locate reason interpreter.source offset) }) >>=
          fun _ => Eval.log "script error"
            [("message", .text reason.message), ("pos", .number offset)]
      else Pure.pure () := by
    funext machine
    rw [Eval.raiseAt, interpreter_bind_apply, inspect_bind_apply]
  rw [asConsult]
  refine .consult _ (fun _ _ _ => rfl) fun _ _ => ?_
  split
  · refine .bind (.change _ (fun _ _ _ => rfl) fun interpreter kept => ?_) fun _ => .log _ _
    refine ⟨kept.offers, kept.heeds, fun start isStart error isError => ⟨reason, ?_⟩⟩
    rw [← placed start isStart]
    exact (Option.some.inj isError).symm
  · exact .pure ()

/-- Errors are raised at the same command at both depths. -/
theorem raise
    (reason : Reason) :
    Alike (σ := σ) terms footing (Eval.raise reason) (Eval.raise reason) := by
  intro first second alike
  have raisedShallow : Eval.raise reason first =
      Eval.raiseAt (first.interpreter.active.getLast?.getD 0 : Nat) reason first := rfl
  have raisedDeep : Eval.raise reason second =
      Eval.raiseAt (second.interpreter.active.getLast?.getD 0 : Nat) reason second := rfl
  rw [raisedShallow, raisedDeep, alike.getLast?_active]
  exact raiseAt _ reason (fun start isStart => by rw [alike.start_eq isStart]) first second alike

theorem clearError :
    Alike (σ := σ) terms footing Eval.clearError Eval.clearError :=
  .change _ (fun _ _ _ => rfl) fun _ kept =>
    ⟨kept.offers, kept.heeds, fun _ _ _ pending => nomatch pending⟩

theorem cancellation :
    Alike (σ := σ) terms footing Eval.cancellation Eval.cancellation := by
  intro first second alike
  have sameContext := alike.view_eq Interpreter.context fun _ _ _ => rfl
  have sameCause : second.world.cancellation = first.world.cancellation := by
    obtain ⟨_, _, _, _, _, _, _, _, _⟩ := alike
    rfl
  rw [Eval.cancellation, Eval.cancellation, sameContext, sameCause]
  split
  · exact .ok alike
  · exact .ok alike

/-- Marking where the innermost evaluation is, if it is not one of those below. -/
theorem markCommand
    (inside : footing.inside = true)
    (offset : Nat) :
    Alike (σ := σ) terms footing (Eval.markCommand offset) (Eval.markCommand offset) := by
  rintro first _ ⟨above, down, records, active, nested, sameDown, sameLog, fit, kept⟩
  cases above with
  | nil =>
      exact absurd rfl (nested inside)
  | cons innermost others =>
      refine .ok (.of (marked first offset) (offset :: others) down records ?_
        (by simp) sameDown sameLog fit ⟨kept.offers, kept.heeds, kept.placed⟩)
      simp [marked, active]

/-! ## Other frames -/

/-- What runs in another frame starts and ends with the same down frame at both depths. -/
theorem inFrame
    (frame : FrameId)
    (down : Option FrameId)
    {shallow deep : Eval σ α}
    (inside : Alike terms footing.visiting shallow deep) :
    Alike terms footing (Eval.inFrame frame down shallow) (Eval.inFrame frame down deep) := by
  rintro first _ ⟨above, below, records, active, nested, sameDown, sameLog, fit, kept⟩
  have starts : Matches terms footing.visiting (visiting frame down first)
      (visiting frame down (first.shifted (above ++ footing.deep) below records)) :=
    .of (visiting frame down first) above down records active nested (fun _ => rfl)
      sameLog ⟨fit.level, .inl rfl⟩ ⟨kept.offers, kept.heeds, kept.placed⟩
  refine (inside _ _ starts).ensuring id ?_
  rintro after _ ⟨above, _, records, active, nested, _, sameLog, _, kept⟩
  exact .of (visiting first.interpreter.current first.interpreter.down after) above below
    records active nested sameDown sameLog fit ⟨kept.offers, kept.heeds, kept.placed⟩

/-- What runs in a new frame. -/
theorem inNewFrame
    (frame : Frame)
    {shallow deep : Eval σ α}
    (inside : Alike terms footing shallow deep) :
    Alike terms footing (Eval.inNewFrame frame shallow) (Eval.inNewFrame frame deep) := by
  intro first second alike
  rw [inNewFrame_apply, inNewFrame_apply]
  have entered := alike.change (fun interpreter =>
      { (interpreter.addFrame frame).2 with current := interpreter.frames.size })
    (fun _ _ _ => rfl) fun _ kept => ⟨kept.offers, kept.heeds, kept.placed⟩
  have sameSize := alike.view_eq (fun interpreter => interpreter.frames.size)
    fun _ _ _ => rfl
  have sameCurrent := alike.view_eq Interpreter.current fun _ _ _ => rfl
  refine (inside _ _ (entered.frameRecord "push frame")).ensuring id fun after other ends => ?_
  have leaves := ends.change (fun interpreter =>
      { interpreter.updateFrame first.interpreter.frames.size Frame.release with
        current := first.interpreter.current })
    (fun _ _ _ => rfl) fun _ kept => ⟨kept.offers, kept.heeds, kept.placed⟩
  rw [popped, popped, sameSize, sameCurrent]
  exact leaves.frameRecord "pop frame"

/-- The outermost evaluations of two matching machines are nested too deeply together. -/
theorem catchTooDeep
    {shallow deep : Eval σ Evaluated}
    {first second : Machine σ}
    (ends : EndsAlike terms footing (shallow first) (deep second))
    (level : ¬footing.shallow.length < footing.deep.length) :
    EndsAlike terms footing (Eval.catchTooDeep shallow first) (Eval.catchTooDeep deep second) := by
  rw [Eval.catchTooDeep, Eval.catchTooDeep]
  cases ranShallow : shallow first <;> cases ranDeep : deep second <;>
    rw [ranShallow, ranDeep] at ends <;> cases ends
  case ok.ok.ok alike => exact .ok alike
  case ok.error.tooDeep deeper => exact absurd deeper level
  case error.error.error stop _ _ alike =>
    cases stop with
    | tooDeep error => exact (Alike.bind (.log _ _) fun _ => .pure _) _ _ alike
    | crash => exact .error alike
    | exhausted => exact .error alike
  case error.ok.barred stop _ _ _ isBarrier =>
    cases stop with
    | tooDeep error => exact absurd isBarrier (terms.escapes error)
    | crash => exact .barred _ _ isBarrier
    | exhausted => exact .barred _ _ isBarrier
  case error.error.barred stop _ _ _ isBarrier =>
    cases stop with
    | tooDeep error => exact absurd isBarrier (terms.escapes error)
    | crash => exact .barred _ _ isBarrier
    | exhausted => exact .barred _ _ isBarrier
  case error.error.tooDeep deeper => exact absurd deeper level

/-- An evaluation in a context. -/
theorem evaluateIn
    {shallow deep : Run σ}
    (runs : RunsAlike terms shallow deep)
    (context : Context)
    (code : Text) :
    Alike terms footing (Eval.evaluateIn shallow context code)
      (Eval.evaluateIn deep context code) := by
  intro first second alike
  have reports : Alike terms footing (runReporting shallow code) (runReporting deep code) :=
    .bind (runs footing code true) fun _ => .consult _ (fun _ _ _ => rfl) fun _ _ => .pure _
  have entered := alike.change (fun interpreter => { interpreter with context })
    (fun _ _ _ => rfl) fun _ kept => ⟨kept.offers, kept.heeds, kept.placed⟩
  have sameContext := alike.view_eq Interpreter.context fun _ _ _ => rfl
  have restores : EndsAlike terms footing
      (Eval.ensuring (runReporting shallow code) (restored first)
        (outermostCall context code first).machine)
      (Eval.ensuring (runReporting deep code) (restored second)
        (outermostCall context code second).machine) := by
    refine (reports _ _ entered).ensuring id fun after other ends => ?_
    rw [restored, restored, sameContext]
    exact ends.change
      (fun interpreter => { interpreter with context := first.interpreter.context })
      (fun _ _ _ => rfl) fun _ kept => ⟨kept.offers, kept.heeds, kept.placed⟩
  have asCall : ∀ (run : Run σ) (machine : Machine σ),
      Eval.evaluateIn run context code machine =
        if machine.interpreter.active.isEmpty then
          Eval.catchTooDeep (Eval.ensuring (runReporting run code) (restored machine))
            (outermostCall context code machine).machine
        else Eval.ensuring (runReporting run code) (restored machine)
          (outermostCall context code machine).machine := by
    intro run machine
    simp only [Eval.evaluateIn, inspect_bind_apply, change_bind_apply]
    split <;> rfl
  rw [asCall, asCall, alike.isEmpty_active]
  split
  · next idle =>
    refine catchTooDeep restores ?_
    rw [alike.level_of_idle (List.isEmpty_iff.mp idle)]
    exact Nat.lt_irrefl _
  · exact restores

/-- Code that is run in a jail has no evaluation below at either depth. -/
theorem inJail
    {shallow deep : Eval σ α}
    {interpreter : Interpreter σ}
    (kept : Kept terms footing interpreter)
    (clean : Bool)
    (inside : Alike terms .jail shallow deep) :
    Alike terms footing (onInterpreter (jailInterpreter interpreter clean) shallow)
      (onInterpreter (jailInterpreter interpreter clean) deep) := by
  rintro first _ ⟨above, below, records, active, nested, sameDown, sameLog, fit, keptFirst⟩
  have starts : Matches terms .jail
      { first with interpreter := jailInterpreter interpreter clean }
      { first.shifted (above ++ footing.deep) below records with
        interpreter := jailInterpreter interpreter clean } := by
    have offers := kept.offers.jail (fun _ => trivial) clean
    obtain ⟨functions, commands, system, isJail⟩ := interpreter.jail_eq clean
    rw [isJail] at offers ⊢
    exact .of _ [] none records rfl (fun inside => nomatch inside) (fun _ => rfl) sameLog
      ⟨fun _ => rfl, .inl rfl⟩
      ⟨offers, kept.heeds.imp_right fun blind => blind.jail, fun _ none => nomatch none⟩
  refine (inside _ _ starts).ensuring (fun deeper => absurd deeper (by decide)) ?_
  rintro after _ ⟨_, _, records, _, _, _, sameLog, _, _⟩
  exact .of { after with interpreter := first.interpreter } above below records active nested
    sameDown sameLog fit keptFirst

end Alike

end LittleScript.Eval
