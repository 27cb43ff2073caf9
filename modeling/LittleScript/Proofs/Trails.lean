import LittleScript.Proofs.ControlState

namespace LittleScript.Eval

/-!
# Trails of errors

The trail of a run lists the error that is pending after each of its steps, those of nested code
on the same interpreter included.  The first argument of `try` is the exception: what is pending
while it runs does not show on the trail around it, but on the trail of its own run.

Along a trail the first error stays: nothing raises an error over another one, and no command but
`try`, which does so behind the code that it runs first, drops one.
-/

open Source (Cursor)

variable {σ α β : Type}

/-- The errors that are pending after the steps of a run, in their order. -/
abbrev Trail := List (Option ScriptError)

/-- Which trails the runs of nested code have. -/
abbrev CallTrails (σ : Type) := Text → Bool → Machine σ → Trail → Prop

/--
`Attempts run calls arguments machine trail` says that `try` has this trail when it is called with
these arguments.  With an error pending nothing is run.  Otherwise the first argument is run and has
a trail of its own; the error with which it ends, if there is one, is dropped, and behind that the
second argument is run.
-/
inductive Attempts (run : Run σ) (calls : CallTrails σ) :
    List Text → Machine σ → Trail → Prop where
  | missing (machine : Machine σ) :
      Attempts run calls [] machine []
  | refused (body : Text) (rest : List Text) {machine : Machine σ} :
      machine.interpreter.error ≠ none →
      Attempts run calls (body :: rest) machine []
  | abandoned {body : Text} (rest : List Text) {machine after : Machine σ} {stop : Stop}
      {inner : Trail} :
      machine.interpreter.error = none →
      calls body false machine inner →
      run body false machine = .error stop after →
      Attempts run calls (body :: rest) machine []
  | passed {body value : Text} (rest : List Text) {machine after : Machine σ} {inner : Trail} :
      machine.interpreter.error = none →
      calls body false machine inner →
      run body false machine = .ok value after →
      after.interpreter.error = none →
      Attempts run calls (body :: rest) machine []
  | dropped {body value : Text} {machine after : Machine σ} {inner : Trail} :
      machine.interpreter.error = none →
      calls body false machine inner →
      run body false machine = .ok value after →
      after.interpreter.error ≠ none →
      Attempts run calls [body] machine [none]
  | handled {body handler value : Text} (more : List Text) {machine after : Machine σ}
      {inner trail : Trail} :
      machine.interpreter.error = none →
      calls body false machine inner →
      run body false machine = .ok value after →
      after.interpreter.error ≠ none →
      calls handler false
        { after with interpreter := { after.interpreter with error := none } } trail →
      Attempts run calls (body :: handler :: more) machine (none :: trail)

/--
`Trails run calls action machine trail` says that the action, with `run` for its nested code, has
this trail when it starts on the machine.
-/
inductive Trails (run : Run σ) (calls : CallTrails σ) :
    {α : Type} → (Run σ → Eval σ α) → Machine σ → Trail → Prop where
  | pure {α : Type} (value : α) (machine : Machine σ) :
      Trails run calls (fun _ => Pure.pure value) machine []
  | bind {α β : Type} {first : Run σ → Eval σ α} {next : Run σ → α → Eval σ β}
      {machine between : Machine σ} {value : α} {early late : Trail} :
      Trails run calls first machine early →
      first run machine = .ok value between →
      Trails run calls (fun run => next run value) between late →
      Trails run calls (fun run => first run >>= next run) machine (early ++ late)
  | stopped {α β : Type} {first : Run σ → Eval σ α} {next : Run σ → α → Eval σ β}
      {machine after : Machine σ} {stop : Stop} {early : Trail} :
      Trails run calls first machine early →
      first run machine = .error stop after →
      Trails run calls (fun run => first run >>= next run) machine early
  | consult {α β : Type} (view : Interpreter σ → α) {next : Run σ → α → Eval σ β}
      {machine : Machine σ} {trail : Trail} :
      Trails run calls (fun run => next run (view machine.interpreter)) machine trail →
      Trails run calls (fun run => inspect view >>= next run) machine trail
  | step {reach : FrameId → Bool} {update : Interpreter σ → Interpreter σ}
      (machine : Machine σ) :
      Step reach update →
      Trails run calls (fun _ => change update) machine [(update machine.interpreter).error]
  | record (offset : Int) (reason : Reason) (machine : Machine σ) :
      Trails run calls (fun _ => raiseAt offset reason) machine
        [(final (raiseAt offset reason) machine).interpreter.error]
  | ask {α : Type} (answer : World σ → α × World σ) (machine : Machine σ) :
      Trails run calls (fun _ => Eval.ask answer) machine []
  | observe {α : Type} (view : Context → World σ → α) (machine : Machine σ) :
      Trails run calls
        (fun _ machine => .ok (view machine.interpreter.context machine.world) machine) machine []
  | halt {α : Type} (stop : Stop) (machine : Machine σ) :
      Trails run calls (fun _ => (throw stop : Eval σ α)) machine []
  | nested {code : Text} {ownResult : Bool} {machine : Machine σ} {trail : Trail} :
      calls code ownResult machine trail →
      Trails run calls (fun run => run code ownResult) machine trail
  | inFrame {α : Type} (frame : FrameId) (down : Option FrameId) {action : Run σ → Eval σ α}
      {machine : Machine σ} {trail : Trail} :
      Trails run calls action
        { machine with interpreter := { machine.interpreter with current := frame, down } } trail →
      Trails run calls (fun run => Eval.inFrame frame down (action run)) machine trail
  | inNewFrame {α : Type} (frame : Frame) {action : Run σ → Eval σ α}
      {machine : Machine σ} {trail : Trail} :
      Trails run calls action
        (frameRecord "push frame" { machine with interpreter :=
          { (machine.interpreter.addFrame frame).2 with
            current := machine.interpreter.frames.size } }) trail →
      Trails run calls (fun run => Eval.inNewFrame frame (action run)) machine trail
  | runWatch (frame : FrameId) {code : Text} {machine : Machine σ} {trail : Trail} :
      code ≠ [] →
      calls code true
        { machine with interpreter := { machine.interpreter with current := frame } } trail →
      Trails run calls (fun run => Eval.runWatch run frame code) machine trail
  | unwatched (frame : FrameId) (machine : Machine σ) :
      Trails run calls (fun run => Eval.runWatch run frame []) machine []
  | inCatcher {α : Type} {action : Run σ → Eval σ α} {machine : Machine σ} {trail : Trail} :
      Trails run calls action
        { machine with interpreter :=
          { machine.interpreter with catchers := machine.interpreter.catchers + 1 } } trail →
      Trails run calls (fun run => Eval.inCatcher (action run)) machine trail
  | attempt (rounds : Nat) {command : List Text} {machine : Machine σ} {title : Text}
      {trail : Trail} :
      machine.interpreter.command? (command.headD []) = some ⟨title, .builtin .attempt⟩ →
      Attempts run calls command.tail machine trail →
      Trails run calls (fun run => dispatch run rounds command) machine trail
  | jail (other : Interpreter σ) (context : Context) (code : Text) (machine : Machine σ) :
      Trails run calls (fun run => onInterpreter other (evaluateIn run context code)) machine []

/-! ## What is composed has a trail -/

/-- How the run of code that is caught decides what follows. -/
theorem catching_of_unfailed
    {run : Run σ}
    {code : Text}
    {refused caught : Eval σ α}
    {passed : Text → Eval σ α}
    {machine after : Machine σ}
    {value : Text}
    (unfailed : machine.interpreter.error = none)
    (ran : run code false machine = .ok value after) :
    catching run code refused passed caught machine =
      if after.interpreter.error.isSome then
        caught { after with interpreter := { after.interpreter with error := none } }
      else passed value after := by
  simp only [catching, hasError_bind_apply, unfailed, Option.isSome_none, Bool.false_eq_true,
    if_false]
  rw [bind_of_ok ran, hasError_bind_apply]
  cases after.interpreter.error with
  | none =>
      rfl
  | some error =>
      rfl

/-- Code that is tried and stops is not caught. -/
theorem catching_of_stopped
    {run : Run σ}
    {code : Text}
    {refused caught : Eval σ α}
    {passed : Text → Eval σ α}
    {machine after : Machine σ}
    {stop : Stop}
    (unfailed : machine.interpreter.error = none)
    (ran : run code false machine = .error stop after) :
    catching run code refused passed caught machine = .error stop after := by
  simp only [catching, hasError_bind_apply, unfailed, Option.isSome_none, Bool.false_eq_true,
    if_false]
  rw [bind_of_error ran]

/-- Where an error is pending nothing is tried. -/
theorem catching_of_failed
    (run : Run σ)
    (code : Text)
    (refused caught : Eval σ α)
    (passed : Text → Eval σ α)
    {machine : Machine σ}
    (failed : machine.interpreter.error ≠ none) :
    catching run code refused passed caught machine = refused machine := by
  have isFailed : machine.interpreter.error.isSome = true := Option.isSome_iff_ne_none.mpr failed
  simp only [catching, hasError_bind_apply, isFailed, if_true]

/-- A property of the active evaluations that marking a command does not break lasts. -/
theorem active_lasting
    {ready : List Nat → Prop}
    (marks : ∀ offset active, ready active → ready (offset :: active.tail)) :
    Lasting (σ := σ) fun before after => ready before.active → ready after.active where
  refl _ held := held
  trans _ _ _ first second held := second (first held)
  step := by
    intro reach update step interpreter held
    cases step with
    | rename old new =>
        obtain ⟨functions, commands, renamed⟩ := interpreter.rename_getD_eq old new
        simp only [renamed]
        exact held
    | mark offset =>
        exact marks offset _ held
    | _ =>
        exact held
  error _ _ held := held
  inFrame _ _ _ _ inside held := inside held
  inNewFrame _ _ _ inside held := inside held
  runWatch _ _ _ inside held := inside held
  inCatcher _ _ inside held := inside held

/--
What makes actions have trails: where the active evaluations are as they should be, nested code has
trails and leaves them so, and so does marking a command.
-/
structure Trailing (ready : List Nat → Prop) (run : Run σ) (calls : CallTrails σ) : Prop where
  marks : ∀ offset active, ready active → ready (offset :: active.tail)
  upholds : ∀ code ownResult,
    Upholds (fun before after => ready before.active → ready after.active) (run code ownResult)
  called : ∀ code ownResult (machine : Machine σ), machine.interpreter.HostFree →
    ready machine.interpreter.active → ∃ trail, calls code ownResult machine trail

/--
An action that has a trail wherever the active evaluations are as they should be, and that leaves
them so.
-/
structure HasTrails
    (ready : List Nat → Prop)
    (run : Run σ)
    (calls : CallTrails σ)
    (action : Run σ → Eval σ α) : Prop where
  upholds :
    Upholds (fun before after => ready before.active → ready after.active) (action run)
  trail : ∀ machine : Machine σ, machine.interpreter.HostFree →
    ready machine.interpreter.active → ∃ trail, Trails run calls action machine trail

section Existence

variable {ready : List Nat → Prop} {run : Run σ} {calls : CallTrails σ}

/-- The trail of two actions is the one of the first with that of the second behind. -/
theorem HasTrails.bind
    {first : Run σ → Eval σ α}
    {next : Run σ → α → Eval σ β}
    (firstHas : HasTrails ready run calls first)
    (nextHas : ∀ value, HasTrails ready run calls fun run => next run value) :
    HasTrails ready run calls fun run => first run >>= next run where
  upholds := firstHas.upholds.bind (fun _ _ _ early late held => late (early held))
    fun value => (nextHas value).upholds
  trail machine free held := by
    obtain ⟨early, firstTrails⟩ := firstHas.trail machine free held
    have kept := firstHas.upholds machine free
    cases ran : first run machine with
    | error stop after =>
        exact ⟨early, .stopped firstTrails ran⟩
    | ok value between =>
        rw [final_of_ok ran] at kept
        obtain ⟨late, nextTrails⟩ := (nextHas value).trail between kept.1 (kept.2 held)
        exact ⟨early ++ late, .bind firstTrails ran nextTrails⟩

/-- A look at the interpreter leaves no trail. -/
theorem HasTrails.consult
    (view : Interpreter σ → α)
    {next : Run σ → α → Eval σ β}
    (nextHas : ∀ interpreter : Interpreter σ, interpreter.HostFree →
      HasTrails ready run calls fun run => next run (view interpreter)) :
    HasTrails ready run calls fun run => inspect view >>= next run where
  upholds machine free := (nextHas machine.interpreter free).upholds machine free
  trail machine free held := by
    obtain ⟨trail, trails⟩ := (nextHas machine.interpreter free).trail machine free held
    exact ⟨trail, .consult view trails⟩

namespace Trailing

variable (trailing : Trailing ready run calls)
include trailing

/-- What is composed without `try` and drops no error has trails. -/
theorem composed
    {action : Run σ → Eval σ α}
    (composed : Composed (.hostFree (· ≠ .attempt) False) action) :
    HasTrails ready run calls action := by
  refine ⟨composed.upholds (active_lasting trailing.marks) trailing.upholds, ?_⟩
  induction composed with
  | pure value =>
      exact fun machine _ _ => ⟨[], .pure value machine⟩
  | bind firstComposed nextComposed firstTrail nextTrail =>
      exact (HasTrails.bind
        ⟨firstComposed.upholds (active_lasting trailing.marks) trailing.upholds, firstTrail⟩
        fun value =>
          ⟨(nextComposed value).upholds (active_lasting trailing.marks) trailing.upholds,
            nextTrail value⟩).trail
  | consult view _ _ nextTrail =>
      intro machine free held
      obtain ⟨trail, trails⟩ := nextTrail machine.interpreter free machine free held
      exact ⟨trail, .consult view trails⟩
  | step update =>
      exact fun machine _ _ => ⟨_, .step machine update⟩
  | record offset reason =>
      exact fun machine _ _ => ⟨_, .record offset reason machine⟩
  | drop impossible =>
      exact impossible.elim
  | ask answer =>
      exact fun machine _ _ => ⟨[], .ask answer machine⟩
  | observe view =>
      exact fun machine _ _ => ⟨[], .observe view machine⟩
  | halt stop _ _ =>
      exact fun machine _ _ => ⟨[], .halt stop machine⟩
  | nested code ownResult =>
      intro machine free held
      obtain ⟨trail, trails⟩ := trailing.called code ownResult machine free held
      exact ⟨trail, .nested trails⟩
  | inFrame frame down _ _ _ inside =>
      intro machine free held
      obtain ⟨trail, trails⟩ := inside
        { machine with interpreter := { machine.interpreter with current := frame, down } }
        free held
      exact ⟨trail, .inFrame frame down trails⟩
  | inNewFrame frame _ _ inside =>
      intro machine free held
      obtain ⟨trail, trails⟩ := inside
        (frameRecord "push frame" { machine with interpreter :=
          { (machine.interpreter.addFrame frame).2 with
            current := machine.interpreter.frames.size } }) free held
      exact ⟨trail, .inNewFrame frame trails⟩
  | runWatch frame code _ =>
      intro machine free held
      by_cases unwatched : code = []
      · subst unwatched
        exact ⟨[], .unwatched frame machine⟩
      · obtain ⟨trail, trails⟩ := trailing.called code true
          { machine with interpreter := { machine.interpreter with current := frame } } free held
        exact ⟨trail, .runWatch frame unwatched trails⟩
  | inCatcher _ inside =>
      intro machine free held
      obtain ⟨trail, trails⟩ := inside
        { machine with interpreter :=
          { machine.interpreter with catchers := machine.interpreter.catchers + 1 } } free held
      exact ⟨trail, .inCatcher trails⟩
  | catching code isAttempt _ _ _ _ _ _ =>
      exact (isAttempt rfl).elim
  | jail clean context code _ _ =>
      exact fun machine _ _ => ⟨[], .jail _ context code machine⟩

/-- What is assembled without `try` and drops no error has trails. -/
theorem assembled
    {action : Run σ → Eval σ α}
    (assembled : Assembled (.hostFree (· ≠ .attempt) False) action) :
    HasTrails ready run calls action :=
  trailing.composed assembled.composed

theorem attempts
    (arguments : List Text)
    (machine : Machine σ)
    (free : machine.interpreter.HostFree)
    (held : ready machine.interpreter.active) :
    ∃ trail, Attempts run calls arguments machine trail := by
  cases arguments with
  | nil =>
      exact ⟨[], .missing machine⟩
  | cons body rest =>
      by_cases unfailed : machine.interpreter.error = none
      · obtain ⟨inner, bodyTrail⟩ := trailing.called body false machine free held
        have kept := trailing.upholds body false machine free
        cases ran : run body false machine with
        | error stop after =>
            exact ⟨[], .abandoned rest unfailed bodyTrail ran⟩
        | ok value after =>
            rw [final_of_ok ran] at kept
            by_cases stillUnfailed : after.interpreter.error = none
            · exact ⟨[], .passed rest unfailed bodyTrail ran stillUnfailed⟩
            · cases rest with
              | nil =>
                  exact ⟨[none], .dropped unfailed bodyTrail ran stillUnfailed⟩
              | cons handler more =>
                  obtain ⟨trail, handlerTrail⟩ := trailing.called handler false
                    { after with interpreter := { after.interpreter with error := none } }
                    kept.1 (kept.2 held)
                  exact ⟨none :: trail,
                    .handled more unfailed bodyTrail ran stillUnfailed handlerTrail⟩
      · exact ⟨[], .refused body rest unfailed⟩

/-- Calling a command has trails, whatever its first word means. -/
theorem dispatch
    (rounds : Nat)
    (command : List Text) :
    HasTrails ready run calls fun run => Eval.dispatch run rounds command := by
  have calling : Assembled (Scope.whole (σ := σ) False).toRealm fun run =>
      Eval.dispatch run rounds command := .dispatch rounds command
  refine ⟨calling.composed.upholds (active_lasting trailing.marks) trailing.upholds,
    fun machine free held => ?_⟩
  by_cases attempting : ∃ title,
      machine.interpreter.command? (command.headD []) = some ⟨title, .builtin .attempt⟩
  · obtain ⟨title, means⟩ := attempting
    obtain ⟨trail, attempts⟩ := trailing.attempts command.tail machine free held
    exact ⟨trail, .attempt rounds means attempts⟩
  · have other : HasTrails ready run calls fun run =>
        callAs machine.interpreter run rounds command := by
      refine trailing.assembled
        (.callAs rounds command free fun {id title builtin} named found => ?_)
      rintro rfl
      exact attempting ⟨title, Option.bind_eq_some_iff.mpr ⟨id, named, found⟩⟩
    obtain ⟨trail, trails⟩ := other.trail machine free held
    exact ⟨trail, .consult id trails⟩

/-- A command has a trail: that of its words, and that of its call. -/
theorem commandAt
    (rounds bound : Nat)
    (reader : Reader)
    (cursor : Cursor) :
    HasTrails ready run calls fun run => Eval.commandAt run rounds bound reader cursor := by
  refine .bind (trailing.assembled (.step (.mark _))) fun _ =>
    .bind (trailing.assembled .cancellation) fun cause => ?_
  cases cause with
  | some cause =>
      exact .bind (trailing.assembled (.raise _)) fun _ => trailing.assembled (.pure _)
  | none =>
      refine .bind (trailing.assembled (.words ..)) fun read => ?_
      cases read with
      | none =>
          exact trailing.assembled (.pure _)
      | some read =>
          have goOn : ∀ value : Text, HasTrails ready run calls fun _ =>
              Eval.isStopping >>= fun stopping =>
                if stopping then Pure.pure (value, none)
                else Eval.nextCommand reader read.2 >>= fun next =>
                  Pure.pure (value, some next) :=
            fun value => trailing.assembled (.goOn reader read.2 value)
          refine .consult _ fun _ _ => ?_
          split
          · exact trailing.assembled (.pure _)
          · split
            · exact .bind (trailing.assembled (.pure _)) goOn
            · exact .bind (trailing.dispatch rounds read.1) goOn

/-- Commands have a trail, one after the other. -/
theorem commands
    (rounds : Nat)
    (reader : Reader)
    (depth bound : Nat) :
    ∀ (cursor : Cursor) (last : Text), HasTrails ready run calls fun run =>
      Eval.commands run rounds reader depth bound cursor last := by
  induction bound with
  | zero =>
      exact fun _ _ => trailing.assembled (.pure _)
  | succ bound inductionHypothesis =>
      intro cursor last
      refine .consult _ fun _ _ => ?_
      split
      · exact trailing.assembled (.pure _)
      · refine .bind (trailing.commandAt ..) fun ran => ?_
        obtain ⟨value, next⟩ := ran
        cases next with
        | none =>
            exact trailing.assembled (.pure _)
        | some next =>
            exact inductionHypothesis next value

end Trailing

end Existence

/-! ## Along a trail the first error stays -/

/-- An error that is pending before is pending after. -/
def Keeps (before after : Option ScriptError) : Prop :=
  ∀ error, before = some error → after = some error

/-- What is pending is kept. -/
theorem Keeps.refl
    (pending : Option ScriptError) :
    Keeps pending pending :=
  fun _ same => same

/-- What is kept twice is kept. -/
theorem Keeps.trans
    {first second third : Option ScriptError}
    (early : Keeps first second)
    (late : Keeps second third) :
    Keeps first third :=
  fun error isFirst => late error (early error isFirst)

/-- Where nothing is pending anything may be. -/
theorem Keeps.none
    (after : Option ScriptError) :
    Keeps .none after :=
  fun _ impossible => nomatch impossible

/--
From its start, along its trail and to its end an action keeps an error that is pending; and the
error with which it yields its value was pending at one of these moments.
-/
structure Steady
    (start : Option ScriptError)
    (trail : Trail)
    (action : Eval σ α)
    (machine : Machine σ) : Prop where
  kept : (start :: (trail ++ [(final action machine).interpreter.error])).Pairwise Keeps
  known : ∀ {value after}, action machine = .ok value after →
    after.interpreter.error ∈ start :: trail

namespace Steady

variable {start : Option ScriptError} {trail : Trail}

/-- An action without a step of its own that leaves the error as it is. -/
theorem of_same
    {action : Eval σ α}
    {machine : Machine σ}
    (same : (final action machine).interpreter.error = machine.interpreter.error) :
    Steady machine.interpreter.error [] action machine where
  kept := by
    simpa [same] using Keeps.refl _
  known ran := by
    rw [final_of_ok ran] at same
    simp [same]

/-- An action whose only step keeps an error. -/
theorem of_step
    {action : Eval σ α}
    {machine : Machine σ}
    (keeps : Keeps machine.interpreter.error (final action machine).interpreter.error) :
    Steady machine.interpreter.error [(final action machine).interpreter.error] action
      machine where
  kept := by
    simpa using ⟨keeps, Keeps.refl _⟩
  known ran := by
    rw [final_of_ok ran]
    simp

theorem bind
    {action : Eval σ α}
    {next : α → Eval σ β}
    {machine between : Machine σ}
    {value : α}
    {late : Trail}
    (first : Steady start trail action machine)
    (ran : action machine = .ok value between)
    (second : Steady between.interpreter.error late (next value) between) :
    Steady start (trail ++ late) (action >>= next) machine := by
  have whole : (action >>= next) machine = next value between := bind_of_ok ran
  have ends : final (action >>= next) machine = final (next value) between := by
    rw [final, final, whole]
  constructor
  · have early := first.kept
    rw [final_of_ok ran, ← List.cons_append, List.pairwise_append] at early
    obtain ⟨earlyKept, -, reaches⟩ := early
    obtain ⟨leaves, lateKept⟩ := List.pairwise_cons.mp second.kept
    rw [ends, List.append_assoc, ← List.cons_append, List.pairwise_append]
    refine ⟨earlyKept, lateKept, fun before isEarly after isLate => ?_⟩
    exact (reaches before isEarly _ (List.mem_singleton.mpr rfl)).trans (leaves after isLate)
  · intro result after ranBoth
    rw [whole] at ranBoth
    have isLate := second.known ranBoth
    rw [← List.cons_append, List.mem_append]
    rcases List.mem_cons.mp isLate with isBetween | isLate
    · exact .inl (isBetween ▸ first.known ran)
    · exact .inr isLate

theorem stopped
    {action : Eval σ α}
    {next : α → Eval σ β}
    {machine after : Machine σ}
    {stop : Stop}
    (first : Steady start trail action machine)
    (ran : action machine = .error stop after) :
    Steady start trail (action >>= next) machine := by
  have whole : (action >>= next) machine = .error stop after := bind_of_error ran
  constructor
  · have kept := first.kept
    rw [final_of_error ran] at kept
    rw [final_of_error whole]
    exact kept
  · intro value ended ranBoth
    rw [whole] at ranBoth
    cases ranBoth

/-- What leaves the error as it is may follow. -/
theorem followed
    {action : Eval σ α}
    {next : α → Eval σ β}
    {machine : Machine σ}
    (steady : Steady start trail action machine)
    (same : ∀ value after, action machine = .ok value after →
      (final (next value) after).interpreter.error = after.interpreter.error) :
    Steady start trail (action >>= next) machine := by
  cases ran : action machine with
  | error stop after =>
      exact steady.stopped ran
  | ok value after =>
      have whole : Steady start (trail ++ []) (action >>= next) machine :=
        steady.bind ran (.of_same (same value after ran))
      rwa [List.append_nil] at whole

/-- Where nothing is pending at first, nothing can be lost by being stopped. -/
theorem of_stopped
    {action : Eval σ α}
    {machine after : Machine σ}
    {stop : Stop}
    (ran : action machine = .error stop after) :
    Steady none [] action machine where
  kept := by
    simpa using Keeps.none _
  known ranOn := by
    rw [ran] at ranOn
    cases ranOn

/-- One more moment at which nothing is pending yet. -/
theorem cons_none
    {action : Eval σ α}
    {machine : Machine σ}
    (steady : Steady none trail action machine) :
    Steady none (none :: trail) action machine where
  kept := List.pairwise_cons.mpr ⟨fun _ _ => .none _, steady.kept⟩
  known ran := List.mem_cons_of_mem _ (steady.known ran)

/-- An action that runs like another one is steady like it. -/
theorem of_apply_eq
    {action other : Eval σ α}
    {machine otherMachine : Machine σ}
    (steady : Steady start trail other otherMachine)
    (same : action machine = other otherMachine) :
    Steady start trail action machine := by
  constructor
  · rw [final, same]
    exact steady.kept
  · intro value after ran
    rw [same] at ran
    exact steady.known ran

/-- An action that runs another one and then puts something other than the error back. -/
theorem of_ensuring
    {action inner : Eval σ α}
    {machine entered : Machine σ}
    {cleanup : Machine σ → Machine σ}
    (steady : Steady start trail inner entered)
    (runs : action machine = ensuring inner cleanup entered)
    (same : ∀ machine, (cleanup machine).interpreter.error = machine.interpreter.error) :
    Steady start trail action machine := by
  refine of_apply_eq ⟨?_, ?_⟩ runs
  · rw [final_ensuring, same]
    exact steady.kept
  · intro value after ran
    rw [ensuring] at ran
    cases inside : inner entered with
    | error stop stopped =>
        rw [inside] at ran
        cases ran
    | ok result ended =>
        rw [inside] at ran
        cases ran
        rw [same]
        exact steady.known inside

end Steady

/-- Steps leave the pending error alone. -/
theorem Step.error
    {reach : FrameId → Bool}
    {update : Interpreter σ → Interpreter σ}
    (step : Step reach update)
    (interpreter : Interpreter σ) :
    (update interpreter).error = interpreter.error := by
  cases step with
  | rename old new =>
      obtain ⟨functions, commands, renamed⟩ := interpreter.rename_getD_eq old new
      simp only [renamed]
  | _ =>
      rfl

/-- Raising an error keeps one that is pending. -/
theorem raiseAt_keeps
    (offset : Int)
    (reason : Reason)
    (machine : Machine σ) :
    Keeps machine.interpreter.error
      (final (raiseAt offset reason) machine).interpreter.error := by
  intro error pending
  have unchanged : raiseAt offset reason machine = .ok () machine := by
    rw [raiseAt, interpreter_bind_apply, pending]
    rfl
  rw [final_of_ok unchanged, pending]

/-- Calling `try` is steady along each of its trails, if nested code is. -/
theorem Attempts.steady
    {run : Run σ}
    {calls : CallTrails σ}
    (called : ∀ {code ownResult machine trail}, calls code ownResult machine trail →
      Steady machine.interpreter.error trail (run code ownResult) machine)
    {arguments : List Text}
    {machine : Machine σ}
    {trail : Trail}
    (attempts : Attempts run calls arguments machine trail) :
    Steady machine.interpreter.error trail (Command.attempt run arguments >>= settle) machine := by
  cases attempts with
  | missing =>
      exact .of_same rfl
  | refused body rest failed =>
      have refuses : Command.attempt run (body :: rest) machine = .ok (.value []) machine :=
        (congrFun (Assembled.attempt_eq run body rest) machine).trans
          (catching_of_failed run body _ _ _ failed)
      exact (Steady.of_same rfl).of_apply_eq (bind_of_ok refuses)
  | @abandoned body rest _ after stop _ unfailed _ ran =>
      have stops : Command.attempt run (body :: rest) machine = .error stop after :=
        (congrFun (Assembled.attempt_eq run body rest) machine).trans
          (catching_of_stopped unfailed ran)
      rw [unfailed]
      exact .of_stopped (bind_of_error stops)
  | @passed body value rest _ after _ unfailed _ ran stillUnfailed =>
      have passes : Command.attempt run (body :: rest) machine = .ok (.value value) after := by
        rw [Assembled.attempt_eq, catching_of_unfailed unfailed ran, stillUnfailed]
        rfl
      have settled : Steady after.interpreter.error [] (settle (.value value)) after :=
        .of_same rfl
      rw [unfailed, ← stillUnfailed]
      exact settled.of_apply_eq (bind_of_ok passes)
  | @dropped body value _ after _ unfailed _ ran failed =>
      have drops : Command.attempt run [body] machine = .ok (.value [])
          { after with interpreter := { after.interpreter with error := none } } := by
        rw [Assembled.attempt_eq, catching_of_unfailed unfailed ran,
          if_pos (Option.isSome_iff_ne_none.mpr failed)]
        rfl
      let cleared : Machine σ :=
        { after with interpreter := { after.interpreter with error := none } }
      have settled : Steady cleared.interpreter.error [] (settle (.value [])) cleared :=
        .of_same rfl
      rw [unfailed]
      exact settled.cons_none.of_apply_eq (bind_of_ok drops)
  | @handled body handler value more _ after _ _ unfailed _ ran failed handlerTrail =>
      have handles : Command.attempt run (body :: handler :: more) machine =
          (run handler false >>= fun value => pure (.value value))
            { after with interpreter := { after.interpreter with error := none } } := by
        rw [Assembled.attempt_eq, catching_of_unfailed unfailed ran,
          if_pos (Option.isSome_iff_ne_none.mpr failed)]
        rfl
      let toReply (value : Text) : Eval σ Reply := pure (.value value)
      have handled : Steady none _ (run handler false >>= fun value => toReply value >>= settle)
          { after with interpreter := { after.interpreter with error := none } } :=
        (called handlerTrail).followed fun _ _ _ => rfl
      rw [unfailed]
      refine handled.cons_none.of_apply_eq ?_
      rw [← bind_assoc]
      exact bind_congr_first handles

/-- An action is steady along each of its trails, if nested code is. -/
theorem Trails.steady
    {run : Run σ}
    {calls : CallTrails σ}
    (called : ∀ {code ownResult machine trail}, calls code ownResult machine trail →
      Steady machine.interpreter.error trail (run code ownResult) machine)
    {action : Run σ → Eval σ α}
    {machine : Machine σ}
    {trail : Trail}
    (trails : Trails run calls action machine trail) :
    Steady machine.interpreter.error trail (action run) machine := by
  induction trails with
  | pure value machine =>
      exact .of_same rfl
  | bind _ ran _ first second =>
      exact first.bind ran second
  | stopped _ ran first =>
      exact first.stopped ran
  | consult view _ next =>
      exact next.of_apply_eq rfl
  | step machine update =>
      have keeps : Keeps machine.interpreter.error
          (final (change _) machine).interpreter.error :=
        fun error pending => (update.error machine.interpreter).trans pending
      exact .of_step keeps
  | record offset reason machine =>
      exact .of_step (raiseAt_keeps offset reason machine)
  | ask answer machine =>
      exact .of_same rfl
  | observe view machine =>
      exact .of_same rfl
  | halt stop machine =>
      exact .of_same rfl
  | nested isTrail =>
      exact called isTrail
  | inFrame frame down _ inside =>
      exact inside.of_ensuring rfl fun _ => rfl
  | inNewFrame frame _ inside =>
      exact inside.of_ensuring rfl fun _ => rfl
  | @runWatch frame code machine trail watched isTrail =>
      have isWatched : (!code.isEmpty) = true := by
        simpa using watched
      have runs : Eval.runWatch run frame code machine =
          ensuring (do let _ ← run code true)
            (fun after => { after with interpreter :=
              { after.interpreter with current := machine.interpreter.current } })
            { machine with interpreter := { machine.interpreter with current := frame } } := by
        simp only [Eval.runWatch, isWatched, if_true]
        rfl
      exact ((called isTrail).followed fun _ _ _ => rfl).of_ensuring runs fun _ => rfl
  | unwatched frame machine =>
      exact .of_same rfl
  | inCatcher _ inside =>
      exact inside.of_ensuring rfl fun _ => rfl
  | attempt rounds means attempts =>
      exact (Attempts.steady @called attempts).of_apply_eq (dispatch_of_command? run rounds _ means)
  | jail other context code machine =>
      have back : final (onInterpreter other (evaluateIn run context code)) machine = _ :=
        final_ensuring _ _ _
      exact .of_same (by rw [back])

end LittleScript.Eval
