import LittleScript.Proofs.ComposedCommands

namespace LittleScript.Eval

/-!
# What every run keeps

A relation between the interpreter before and the interpreter after lasts when each step of an
evaluation respects it.  It then holds across every run of every script, however the run ends:
nesting is followed by induction on the fuel, commands by induction over what they are composed of.
-/

variable {σ α β : Type}

/-- The machine that an action leaves, whether it yields a value or stops. -/
def final (action : Eval σ α) (machine : Machine σ) : Machine σ :=
  match action machine with
  | .ok _ after => after
  | .error _ after => after

theorem final_of_ok
    {action : Eval σ α}
    {machine after : Machine σ}
    {value : α}
    (ran : action machine = .ok value after) :
    final action machine = after := by
  rw [final, ran]

theorem final_of_error
    {action : Eval σ α}
    {machine after : Machine σ}
    {stop : Stop}
    (ran : action machine = .error stop after) :
    final action machine = after := by
  rw [final, ran]

theorem final_ensuring
    (action : Eval σ α)
    (cleanup : Machine σ → Machine σ)
    (machine : Machine σ) :
    final (ensuring action cleanup) machine = cleanup (final action machine) := by
  simp only [final, ensuring]
  cases action machine with
  | ok value after =>
      rfl
  | error stop after =>
      rfl

/--
An action upholds a relation when the interpreter it leaves is related to the one it found, and
is without host commands like that one.
-/
def Upholds (rel : Interpreter σ → Interpreter σ → Prop) (action : Eval σ α) : Prop :=
  ∀ machine : Machine σ, machine.interpreter.HostFree →
    (final action machine).interpreter.HostFree ∧
      rel machine.interpreter (final action machine).interpreter

/-- What makes a relation last: each step of an evaluation respects it. -/
structure Lasting (rel : Interpreter σ → Interpreter σ → Prop) : Prop where
  refl : ∀ interpreter, rel interpreter interpreter
  trans : ∀ first second third, rel first second → rel second third → rel first third
  step : ∀ {reach update}, Step reach update → ∀ interpreter, rel interpreter (update interpreter)
  error : ∀ (interpreter : Interpreter σ) (pending : Option ScriptError),
    rel interpreter { interpreter with error := pending }
  inFrame : ∀ (interpreter after : Interpreter σ) (frame : FrameId) (down : Option FrameId),
    rel { interpreter with current := frame, down } after →
    rel interpreter { after with current := interpreter.current, down := interpreter.down }
  inNewFrame : ∀ (interpreter after : Interpreter σ) (frame : Frame),
    rel { (interpreter.addFrame frame).2 with current := interpreter.frames.size } after →
    rel interpreter
      { after.updateFrame interpreter.frames.size Frame.release with
        current := interpreter.current }
  runWatch : ∀ (interpreter after : Interpreter σ) (frame : FrameId),
    rel { interpreter with current := frame } after →
    rel interpreter { after with current := interpreter.current }
  inCatcher : ∀ interpreter after : Interpreter σ,
    rel { interpreter with catchers := interpreter.catchers + 1 } after →
    rel interpreter { after with catchers := interpreter.catchers }

/-- Steps do not bring host commands in. -/
theorem Step.hostFree
    {reach : FrameId → Bool}
    {update : Interpreter σ → Interpreter σ}
    (step : Step reach update)
    {interpreter : Interpreter σ}
    (free : interpreter.HostFree) :
    (update interpreter).HostFree := by
  cases step with
  | define name parameters body =>
      exact free.define name (by simp)
  | rename old new =>
      cases attempted : interpreter.rename old new with
      | error reason =>
          simpa [attempted, Except.toOption] using free
      | ok renamed =>
          simpa [attempted, Except.toOption] using free.rename attempted
  | _ =>
      exact free

namespace Upholds

variable {rel : Interpreter σ → Interpreter σ → Prop}

/-- An action that leaves the interpreter alone. -/
theorem of_same
    (lasting : Lasting rel)
    {action : Eval σ α}
    (same : ∀ machine, (final action machine).interpreter = machine.interpreter) :
    Upholds rel action := by
  intro machine free
  rw [same machine]
  exact ⟨free, lasting.refl _⟩

theorem bind
    (trans : ∀ first second third, rel first second → rel second third → rel first third)
    {action : Eval σ α}
    {next : α → Eval σ β}
    (actionUpholds : Upholds rel action)
    (nextUpholds : ∀ value, Upholds rel (next value)) :
    Upholds rel (action >>= next) := by
  intro machine free
  have before := actionUpholds machine free
  cases ran : action machine with
  | ok value after =>
      rw [final_of_ok ran] at before
      have behind := nextUpholds value after before.1
      have whole : final (action >>= next) machine = final (next value) after := by
        rw [final, final, bind_of_ok ran]
      rw [whole]
      exact ⟨behind.1, trans _ _ _ before.2 behind.2⟩
  | error stop after =>
      rw [final_of_error ran] at before
      rw [final_of_error (bind_of_error ran)]
      exact before

theorem change
    {update : Interpreter σ → Interpreter σ}
    (free : ∀ interpreter, interpreter.HostFree → (update interpreter).HostFree)
    (related : ∀ interpreter, rel interpreter (update interpreter)) :
    Upholds rel (Eval.change update) :=
  fun machine hostFree => ⟨free _ hostFree, related machine.interpreter⟩

/-- An action that changes nothing but the pending error. -/
theorem of_error
    (lasting : Lasting rel)
    {action : Eval σ α}
    (leaves : ∀ machine, ∃ pending,
      (final action machine).interpreter = { machine.interpreter with error := pending }) :
    Upholds rel action := by
  intro machine free
  obtain ⟨pending, isLeft⟩ := leaves machine
  rw [isLeft]
  exact ⟨free, lasting.error _ pending⟩

theorem mono
    {wider : Interpreter σ → Interpreter σ → Prop}
    {action : Eval σ α}
    (upholds : Upholds rel action)
    (implies : ∀ before after, rel before after → wider before after) :
    Upholds wider action :=
  fun machine free => ⟨(upholds machine free).1, implies _ _ (upholds machine free).2⟩

end Upholds

/-- A relation that lasts holds across whatever is composed. -/
theorem Composed.upholds
    {rel : Interpreter σ → Interpreter σ → Prop}
    (lasting : Lasting rel)
    {run : Run σ}
    (runUpholds : ∀ code ownResult, Upholds rel (run code ownResult))
    {allowed : Builtin → Prop}
    {drops : Prop}
    {action : Run σ → Eval σ α}
    (composed : Composed (.hostFree allowed drops) action) :
    Upholds rel (action run) := by
  induction composed with
  | pure value =>
      exact .of_same lasting fun _ => rfl
  | bind _ _ firstUpholds nextUpholds =>
      exact .bind lasting.trans firstUpholds nextUpholds
  | consult view _ _ nextUpholds =>
      exact fun machine free => nextUpholds machine.interpreter free machine free
  | step update =>
      exact .change (fun _ => update.hostFree) (lasting.step update)
  | record offset reason =>
      refine .of_error lasting fun machine => ?_
      obtain ⟨error, world, raised⟩ := raiseAt_apply offset reason machine
      exact ⟨some error, by rw [final_of_ok raised]⟩
  | drop _ =>
      exact .of_error lasting fun _ => ⟨none, rfl⟩
  | ask answer =>
      exact .of_same lasting fun _ => rfl
  | observe view =>
      exact .of_same lasting fun _ => rfl
  | halt stop _ _ =>
      exact .of_same lasting fun _ => rfl
  | nested code ownResult =>
      exact runUpholds code ownResult
  | @inFrame α frame down action _ _ _ inside =>
      intro machine free
      have entered := inside
        { machine with interpreter := { machine.interpreter with current := frame, down } } free
      have whole : final (Eval.inFrame frame down (action run)) machine = _ :=
        final_ensuring _ _ _
      rw [whole]
      exact ⟨entered.1, lasting.inFrame _ _ frame down entered.2⟩
  | @inNewFrame α frame action _ _ inside =>
      intro machine free
      have entered := inside
        (frameRecord "push frame" { machine with interpreter :=
          { (machine.interpreter.addFrame frame).2 with
            current := machine.interpreter.frames.size } }) free
      have whole : final (Eval.inNewFrame frame (action run)) machine = _ :=
        final_ensuring _ _ _
      rw [whole]
      exact ⟨entered.1, lasting.inNewFrame _ _ frame entered.2⟩
  | runWatch frame code _ =>
      intro machine free
      simp only [Eval.runWatch]
      split
      · have runs : Upholds rel (do let _ ← run code true) :=
          .bind lasting.trans (runUpholds code true) fun _ => .of_same lasting fun _ => rfl
        have entered := runs
          { machine with interpreter := { machine.interpreter with current := frame } } free
        have whole := final_ensuring (do let _ ← run code true)
          (fun after => { after with interpreter :=
            { after.interpreter with current := machine.interpreter.current } })
          { machine with interpreter := { machine.interpreter with current := frame } }
        refine ⟨?_, ?_⟩
        · exact whole ▸ entered.1
        · exact whole ▸ lasting.runWatch _ _ frame entered.2
      · exact ⟨free, lasting.refl _⟩
  | @inCatcher α action _ inside =>
      intro machine free
      have entered := inside
        { machine with interpreter :=
          { machine.interpreter with catchers := machine.interpreter.catchers + 1 } } free
      have whole : final (Eval.inCatcher (action run)) machine = _ :=
        final_ensuring _ _ _
      rw [whole]
      exact ⟨entered.1, lasting.inCatcher _ _ entered.2⟩
  | catching code _ _ _ _ refusedUpholds passedUpholds caughtUpholds =>
      refine .bind lasting.trans (.of_same lasting fun _ => rfl) fun pending => ?_
      split
      · exact refusedUpholds
      · refine .bind lasting.trans (runUpholds code false) fun value => ?_
        refine .bind lasting.trans (.of_same lasting fun _ => rfl) fun failed => ?_
        split
        · refine .bind lasting.trans ?_ fun _ => caughtUpholds
          exact .of_error lasting fun _ => ⟨none, rfl⟩
        · exact passedUpholds value
  | @jail parent clean context code _ _ =>
      intro machine free
      have whole :
          final (onInterpreter (jailInterpreter parent clean) (evaluateIn run context code))
            machine = _ :=
        final_ensuring _ _ _
      rw [whole]
      exact ⟨free, lasting.refl _⟩

/-! ## Scripts -/

/--
What makes a relation last over scripts.  While a script runs it may hold less, since the script
notes its current command; it holds again when the script is left.
-/
structure LastingScript
    (rel inner : Interpreter σ → Interpreter σ → Prop) : Prop extends Lasting inner where
  outerRefl : ∀ interpreter, rel interpreter interpreter
  within : ∀ before after, rel before after → inner before after
  enclose : ∀ (interpreter after : Interpreter σ) (source : Text),
    inner { interpreter with source, active := 0 :: interpreter.active } after →
    rel interpreter { after with active := interpreter.active }

/-- What a script leaves comes from its body. -/
theorem final_script
    (run : Run σ)
    (rounds : Nat)
    (code : Text)
    (ownResult : Bool)
    (machine : Machine σ) :
    final (script run rounds code ownResult) machine =
      left machine (final
        (scriptBody run rounds code ownResult machine.interpreter.active.isEmpty)
        (entered code machine)) := by
  rw [final, script_apply]
  exact final_ensuring _ (left machine) (entered code machine)

/-- A relation that lasts over scripts holds across every run of a script. -/
theorem LastingScript.script
    {rel inner : Interpreter σ → Interpreter σ → Prop}
    (lasting : LastingScript rel inner)
    {run : Run σ}
    (runUpholds : ∀ code ownResult, Upholds rel (run code ownResult))
    (rounds : Nat)
    (code : Text)
    (ownResult : Bool) :
    Upholds rel (Eval.script run rounds code ownResult) := by
  intro machine free
  have body : Composed (Scope.whole (σ := σ) True).toRealm _ :=
    .scriptBody rounds code ownResult machine.interpreter.active.isEmpty fun _ => True.intro
  have inside := body.upholds lasting.toLasting
    (fun code ownResult => (runUpholds code ownResult).mono lasting.within)
    (entered code machine) free
  rw [final_script]
  exact ⟨inside.1, lasting.enclose _ _ _ inside.2⟩

/-- A relation that lasts over scripts holds across every evaluation. -/
theorem LastingScript.evaluate
    {rel inner : Interpreter σ → Interpreter σ → Prop}
    (lasting : LastingScript rel inner)
    (fuel : Nat) :
    ∀ (code : Text) (ownResult : Bool), Upholds rel (Eval.evaluate fuel code ownResult) := by
  induction fuel with
  | zero =>
      exact fun _ _ machine free => ⟨free, lasting.outerRefl machine.interpreter⟩
  | succ fuel inductionHypothesis =>
      exact lasting.script inductionHypothesis fuel

end LittleScript.Eval
