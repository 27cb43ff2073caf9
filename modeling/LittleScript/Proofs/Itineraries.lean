import LittleScript.Proofs.ControlState
import LittleScript.Proofs.Moves

namespace LittleScript.Eval

/-!
# Itineraries

The itinerary of a run lists the nested calls that an assembled action makes, in their order.  The
action depends on nested code only through these calls; each of them starts on a machine to which
the moves of the action lead, or in a jail made there, and behind each of them the world goes
onward.
-/

variable {σ α β : Type}

namespace Call

/-- How a call ends. -/
def result (run : Run σ) (call : Call σ) : EStateM.Result Stop (Machine σ) Text :=
  run call.code call.ownResult call.machine

/-- The machine that a call leaves. -/
def after (run : Run σ) (call : Call σ) : Machine σ :=
  final (run call.code call.ownResult) call.machine

end Call

/-- What code in a jail of the interpreter starts on. -/
def jailMachine (clean : Bool) (machine : Machine σ) : Machine σ :=
  { machine with interpreter :=
    { jailInterpreter machine.interpreter clean with context := machine.interpreter.context } }

/-- A call that starts where the moves from a machine lead, or in a jail that is made there. -/
inductive Reached (realm : Realm σ) (rel : Machine σ → Machine σ → Prop) (machine : Machine σ) :
    Call σ → Prop where
  | here (code : Text) (ownResult : Bool) {there : Machine σ} :
      rel machine there →
      Reached realm rel machine ⟨code, ownResult, there⟩
  | jailed (clean : Bool) (code : Text) {parent : Machine σ} :
      realm.allowed .jailEvaluate →
      rel machine parent →
      Reached realm rel machine ⟨code, true, jailMachine clean parent⟩

/-- The nested calls that an action makes when it starts on a machine. -/
structure Itinerary
    (realm : Realm σ)
    (rel : Machine σ → Machine σ → Prop)
    (onward : World σ → World σ → Prop)
    (run : Run σ)
    (action : Run σ → Eval σ α)
    (machine : Machine σ)
    (calls : List (Call σ)) : Prop where
  ends : rel machine (final (action run) machine)
  determined : ∀ other : Run σ, (∀ call ∈ calls, call.result other = call.result run) →
    action other machine = action run machine
  reached : ∀ call ∈ calls, Reached realm rel machine call
  ordered : calls.Pairwise fun early late => onward (early.after run).world late.machine.world
  followed : ∀ call ∈ calls, onward (call.after run).world (final (action run) machine).world

namespace Itinerary

variable {realm : Realm σ} {rel : Machine σ → Machine σ → Prop}
  {onward : World σ → World σ → Prop} {run : Run σ}

/-- An action that runs no nested code. -/
theorem of_still
    {action : Eval σ α}
    {machine : Machine σ}
    (ends : rel machine (final action machine)) :
    Itinerary realm rel onward run (fun _ => action) machine [] where
  ends := ends
  determined _ _ := rfl
  reached _ member := nomatch member
  ordered := .nil
  followed _ member := nomatch member

/-- A nested call that an action makes is on its itinerary. -/
theorem mem_of_makes
    {action : Run σ → Eval σ α}
    {machine : Machine σ}
    {calls : List (Call σ)}
    (itinerary : Itinerary realm rel onward run action machine calls)
    {call : Call σ}
    (makes : Makes action run machine call) :
    call ∈ calls := by
  obtain ⟨answer, differs⟩ := makes
  refine Classical.byContradiction fun absent => differs (itinerary.determined _ ?_)
  intro other member
  have different : other ≠ call := fun same => absent (same ▸ member)
  exact answering_of_ne different

/-- An action that runs like another one from where a move leads. -/
theorem of_apply
    (leading : Leading realm rel onward)
    {action other : Run σ → Eval σ α}
    {machine start : Machine σ}
    {calls : List (Call σ)}
    (itinerary : Itinerary realm rel onward run other start calls)
    (leads : rel machine start)
    (same : ∀ run, action run machine = other run start) :
    Itinerary realm rel onward run action machine calls := by
  have sameEnd : final (action run) machine = final (other run) start := by
    rw [final, final, same]
  constructor
  · rw [sameEnd]
    exact leading.trans leads itinerary.ends
  · intro run agree
    rw [same, same, itinerary.determined run agree]
  · intro call member
    cases itinerary.reached call member with
    | here code ownResult led =>
        exact .here code ownResult (leading.trans leads led)
    | jailed clean code allowed led =>
        exact .jailed clean code allowed (leading.trans leads led)
  · exact itinerary.ordered
  · intro call member
    rw [sameEnd]
    exact itinerary.followed call member

/-- An action that runs another one and then puts something back. -/
theorem of_ensuring
    (leading : Leading realm rel onward)
    {action inner : Run σ → Eval σ α}
    {machine start : Machine σ}
    {cleanup : Machine σ → Machine σ}
    {calls : List (Call σ)}
    (itinerary : Itinerary realm rel onward run inner start calls)
    (leads : rel machine start)
    (same : ∀ run, action run machine = Eval.ensuring (inner run) cleanup start)
    (leaves : ∀ after, rel start after → rel after (cleanup after)) :
    Itinerary realm rel onward run action machine calls := by
  have left := leaves _ itinerary.ends
  have enclosed : Itinerary realm rel onward run (fun run => Eval.ensuring (inner run) cleanup)
      start calls := by
    constructor
    · rw [final_ensuring]
      exact leading.trans itinerary.ends left
    · intro other agree
      simp only [Eval.ensuring, itinerary.determined other agree]
    · exact itinerary.reached
    · exact itinerary.ordered
    · intro call member
      rw [final_ensuring]
      exact leading.onwardTrans (itinerary.followed call member) (leading.goesOnward left)
  exact enclosed.of_apply leading leads same

theorem bind
    (leading : Leading realm rel onward)
    {first : Run σ → Eval σ α}
    {next : Run σ → α → Eval σ β}
    {machine between : Machine σ}
    {value : α}
    {early late : List (Call σ)}
    (itinerary : Itinerary realm rel onward run first machine early)
    (ran : first run machine = .ok value between)
    (second : Itinerary realm rel onward run (fun run => next run value) between late) :
    Itinerary realm rel onward run (fun run => first run >>= next run) machine (early ++ late) := by
  have whole : (first run >>= next run) machine = next run value between := bind_of_ok ran
  have sameEnd : final (first run >>= next run) machine = final (next run value) between := by
    rw [final, final, whole]
  have leads : rel machine between := by
    have ends := itinerary.ends
    rwa [final_of_ok ran] at ends
  have follows : ∀ call ∈ early, onward (call.after run).world between.world := by
    intro call member
    have followed := itinerary.followed call member
    rwa [final_of_ok ran] at followed
  have starts : ∀ call ∈ late, onward between.world call.machine.world := by
    intro call member
    cases second.reached call member with
    | here _ _ led =>
        exact leading.goesOnward led
    | jailed _ _ _ led =>
        have flows := leading.goesOnward led
        exact flows
  constructor
  · rw [sameEnd]
    exact leading.trans leads second.ends
  · intro other agree
    have sameFirst := itinerary.determined other fun call member =>
      agree call (List.mem_append_left late member)
    have sameSecond := second.determined other fun call member =>
      agree call (List.mem_append_right early member)
    rw [whole, ← sameSecond]
    exact bind_of_ok (sameFirst.trans ran)
  · intro call member
    rcases List.mem_append.mp member with isEarly | isLate
    · exact itinerary.reached call isEarly
    · cases second.reached call isLate with
      | here code ownResult led =>
          exact .here code ownResult (leading.trans leads led)
      | jailed clean code allowed led =>
          exact .jailed clean code allowed (leading.trans leads led)
  · refine List.pairwise_append.mpr ⟨itinerary.ordered, second.ordered, ?_⟩
    intro before isEarly behind isLate
    exact leading.onwardTrans (follows before isEarly) (starts behind isLate)
  · intro call member
    rw [sameEnd]
    rcases List.mem_append.mp member with isEarly | isLate
    · exact leading.onwardTrans (follows call isEarly) (leading.goesOnward second.ends)
    · exact second.followed call isLate

theorem stopped
    {first : Run σ → Eval σ α}
    {next : Run σ → α → Eval σ β}
    {machine after : Machine σ}
    {stop : Stop}
    {calls : List (Call σ)}
    (itinerary : Itinerary realm rel onward run first machine calls)
    (ran : first run machine = .error stop after) :
    Itinerary realm rel onward run (fun run => first run >>= next run) machine calls := by
  have whole : (first run >>= next run) machine = .error stop after := bind_of_error ran
  have sameEnd : final (first run >>= next run) machine = final (first run) machine := by
    rw [final_of_error whole, final_of_error ran]
  constructor
  · rw [sameEnd]
    exact itinerary.ends
  · intro other agree
    rw [whole]
    exact bind_of_error ((itinerary.determined other agree).trans ran)
  · exact itinerary.reached
  · exact itinerary.ordered
  · rw [sameEnd]
    exact itinerary.followed

/-- Whatever follows an action that yields or stops. -/
theorem exists_bind
    (leading : Leading realm rel onward)
    {first : Run σ → Eval σ α}
    {next : Run σ → α → Eval σ β}
    {machine : Machine σ}
    {calls : List (Call σ)}
    (itinerary : Itinerary realm rel onward run first machine calls)
    (second : ∀ value between, first run machine = .ok value between → rel machine between →
      ∃ calls, Itinerary realm rel onward run (fun run => next run value) between calls) :
    ∃ calls, Itinerary realm rel onward run (fun run => first run >>= next run) machine calls := by
  cases ran : first run machine with
  | error stop after =>
      exact ⟨calls, itinerary.stopped ran⟩
  | ok value between =>
      have ends := itinerary.ends
      rw [final_of_ok ran] at ends
      obtain ⟨late, follows⟩ := second value between ran ends
      exact ⟨calls ++ late, itinerary.bind leading ran follows⟩

end Itinerary

/-! ## What is assembled has an itinerary -/

section Assembled

variable {realm : Realm σ} {rel : Machine σ → Machine σ → Prop}
  {onward : World σ → World σ → Prop}

/-- A relation that leads through nested code, and over what nested code does in a jail. -/
structure Through
    (realm : Realm σ)
    (rel : Machine σ → Machine σ → Prop)
    (run : Run σ) : Prop where
  here : ∀ code ownResult {machine : Machine σ}, realm.holds machine.interpreter →
    rel machine (final (run code ownResult) machine)
  jailed : realm.allowed .jailEvaluate → ∀ clean code {machine : Machine σ},
    realm.holds machine.interpreter →
    rel machine
      { machine with world := (final (run code true) (jailMachine clean machine)).world }

variable {run : Run σ}

/-- A nested call is its own itinerary. -/
theorem Itinerary.nested
    (leading : Leading realm rel onward)
    (through : Through realm rel run)
    (code : Text)
    (ownResult : Bool)
    {machine : Machine σ}
    (held : realm.holds machine.interpreter) :
    Itinerary realm rel onward run (fun run => run code ownResult) machine
      [⟨code, ownResult, machine⟩] where
  ends := through.here code ownResult held
  determined other agree := agree _ (List.mem_singleton.mpr rfl)
  reached call member := by
    rw [List.mem_singleton.mp member]
    exact .here code ownResult (leading.refl machine)
  ordered := List.pairwise_singleton _ _
  followed call member := by
    rw [List.mem_singleton.mp member]
    exact leading.goesOnward (leading.refl _)

/-- What follows nested code that is run in a frame nearby. -/
theorem Itinerary.visit
    (leading : Leading realm rel onward)
    (through : Through realm rel run)
    {action : Run σ → Eval σ α}
    (code : Text)
    (ownResult : Bool)
    (result : Text → α)
    {frame : FrameId}
    {down : Option FrameId}
    (below : Machine σ → Option FrameId)
    {machine : Machine σ}
    (held : realm.holds machine.interpreter)
    (borders : machine.interpreter.Borders frame)
    (bordersBelow : ∀ id, down = some id → machine.interpreter.Borders id)
    (comesBack : ∀ after, below after = machine.interpreter.down ∨
      below after = after.interpreter.down)
    (same : ∀ run, action run machine =
      Eval.ensuring (run code ownResult >>= fun value => Pure.pure (result value))
        (fun after => visiting machine.interpreter.current (below after) after)
        (visiting frame down machine)) :
    ∃ calls, Itinerary realm rel onward run action machine calls := by
  have leads : rel machine (visiting frame down machine) :=
    leading.move held (.visit borders bordersBelow)
  have inside : ∃ calls, Itinerary realm rel onward run
      (fun run => run code ownResult >>= fun value => Pure.pure (result value))
      (visiting frame down machine) calls :=
    Itinerary.exists_bind leading
      (.nested leading through code ownResult (leading.holds leads held))
      fun _ between _ _ => ⟨[], .of_still (leading.refl between)⟩
  obtain ⟨calls, itinerary⟩ := inside
  exact ⟨calls, itinerary.of_ensuring leading leads same fun after led =>
    leading.back held led (comesBack after)⟩

/-- A way to another frame leads to the parent, the down frame or the root. -/
theorem Itinerary.heading
    (leading : Leading realm rel onward)
    (through : Through realm rel run)
    (heading : Heading)
    (code : Text)
    {machine : Machine σ}
    (held : realm.holds machine.interpreter) :
    ∃ calls, Itinerary realm rel onward run (fun run => heading.evaluate run code) machine
      calls := by
  have stays : ∃ calls, Itinerary realm rel onward run (fun run => run code false) machine calls :=
    ⟨_, .nested leading through code false held⟩
  have goes : ∀ frame down, machine.interpreter.Borders frame →
      (∀ id, down = some id → machine.interpreter.Borders id) →
      ∃ calls, Itinerary realm rel onward run (fun run => inFrame frame down (run code false))
        machine calls := by
    intro frame down borders bordersBelow
    refine Itinerary.visit leading through code false id (fun _ => machine.interpreter.down) held
      borders bordersBelow (fun _ => .inl rfl) fun run => ?_
    simp only [id_eq, bind_pure]
    rfl
  have bordersHere : ∀ id, some machine.interpreter.current = some id →
      machine.interpreter.Borders id := by
    rintro id ⟨⟩
    exact .inr (.inl rfl)
  cases heading with
  | up =>
      simp only [Heading.evaluate, upEvaluate]
      cases isParent : machine.interpreter.currentFrame.parent with
      | none =>
          obtain ⟨calls, itinerary⟩ := stays
          refine ⟨calls, itinerary.of_apply leading (leading.refl machine) fun run => ?_⟩
          simp only [interpreter_bind_apply, isParent]
      | some parent =>
          obtain ⟨calls, itinerary⟩ := goes parent (some machine.interpreter.current)
            (.inr (.inr (.inl isParent))) bordersHere
          refine ⟨calls, itinerary.of_apply leading (leading.refl machine) fun run => ?_⟩
          simp only [interpreter_bind_apply, isParent]
  | down =>
      simp only [Heading.evaluate, downEvaluate]
      cases isDown : machine.interpreter.down with
      | none =>
          obtain ⟨calls, itinerary⟩ := stays
          refine ⟨calls, itinerary.of_apply leading (leading.refl machine) fun run => ?_⟩
          simp only [inspect_bind_apply, isDown]
      | some down =>
          obtain ⟨calls, itinerary⟩ := goes down none (.inr (.inr (.inr isDown))) (by simp)
          refine ⟨calls, itinerary.of_apply leading (leading.refl machine) fun run => ?_⟩
          simp only [inspect_bind_apply, isDown]
  | top =>
      simp only [Heading.evaluate, topEvaluate]
      by_cases isRoot : machine.interpreter.current = rootFrame
      · obtain ⟨calls, itinerary⟩ := stays
        refine ⟨calls, itinerary.of_apply leading (leading.refl machine) fun run => ?_⟩
        simp [inspect_bind_apply, isRoot]
      · obtain ⟨calls, itinerary⟩ := goes rootFrame (some machine.interpreter.current)
          (.inl rfl) bordersHere
        refine ⟨calls, itinerary.of_apply leading (leading.refl machine) fun run => ?_⟩
        simp [inspect_bind_apply, isRoot]

/-- A host sees no more of the world than the run of its code left, but for one record. -/
theorem world_evaluateIn
    (run : Run σ)
    (context : Context)
    (code : Text)
    (machine : Machine σ)
    (idle : machine.interpreter.active = []) :
    ∃ entries : List LogEntry,
      (final (evaluateIn run context code) machine).world =
        entries.foldl World.record
          (final (run code true) (outermostCall context code machine).machine).world := by
  rw [final, evaluateIn_of_idle run context code idle, catchTooDeep, ensuring, runReporting, final]
  cases ran : run code true (outermostCall context code machine).machine with
  | ok value after =>
      rw [bind_of_ok ran]
      exact ⟨[], rfl⟩
  | error stop after =>
      rw [bind_of_error ran]
      cases stop with
      | tooDeep error => exact ⟨[_], rfl⟩
      | crash => exact ⟨[], rfl⟩
      | exhausted => exact ⟨[], rfl⟩

/-- Code in a jail is one call, on an interpreter of its own. -/
theorem Itinerary.inJail
    (leading : Leading realm rel onward)
    (through : Through realm rel run)
    (allowed : realm.allowed .jailEvaluate)
    (clean : Bool)
    (code : Text)
    {machine : Machine σ}
    (held : realm.holds machine.interpreter) :
    Itinerary realm rel onward run (fun run => Eval.inJail run clean code) machine
      [⟨code, true, jailMachine clean machine⟩] := by
  have flows := through.jailed allowed clean code held
  obtain ⟨entries, isWorld⟩ := world_evaluateIn run machine.interpreter.context code
    { machine with interpreter := jailInterpreter machine.interpreter clean }
    (Interpreter.active_jail machine.interpreter clean)
  have back : final (Eval.inJail run clean code) machine =
      { machine with
        world := List.foldl World.record
          (final (run code true) (jailMachine clean machine)).world entries } := by
    have left : final (Eval.inJail run clean code) machine = _ := final_ensuring _ _ _
    rw [left]
    exact congrArg (Machine.mk machine.interpreter) isWorld
  have records : ∀ (entries : List LogEntry) (world : World σ),
      rel machine { machine with world } →
        onward world (entries.foldl World.record world) ∧
          rel machine { machine with world := List.foldl World.record world entries } := by
    intro entries
    induction entries with
    | nil =>
        intro world leads
        have stays := leading.goesOnward (leading.refl { machine with world })
        exact ⟨stays, leads⟩
    | cons entry rest inductionHypothesis =>
        intro world leads
        have touches : realm.Touches fun world : World σ => world.record entry :=
          .inl fun _ => .record _
        have recorded : rel { machine with world } { machine with world := world.record entry } :=
          leading.move held (.touch touches)
        obtain ⟨later, leadsOn⟩ :=
          inductionHypothesis (world.record entry) (leading.trans leads recorded)
        exact ⟨leading.onwardTrans (leading.goesOnward recorded) later, leadsOn⟩
  obtain ⟨later, leads⟩ := records entries _ flows
  constructor
  · rw [back]
    exact leads
  · intro other agree
    have sameRun := agree _ (List.mem_singleton.mpr rfl)
    have sameInside : evaluateIn other machine.interpreter.context code
          { machine with interpreter := jailInterpreter machine.interpreter clean } =
        evaluateIn run machine.interpreter.context code
          { machine with interpreter := jailInterpreter machine.interpreter clean } :=
      evaluateIn_congr sameRun
    simp only [Eval.inJail, interpreter_bind_apply, onInterpreter, change_bind_apply,
      Eval.ensuring, sameInside]
  · intro call member
    rw [List.mem_singleton.mp member]
    exact .jailed clean code allowed (leading.refl machine)
  · exact List.pairwise_singleton _ _
  · intro call member
    rw [List.mem_singleton.mp member, back]
    exact later

/-- An assignment stores its value and calls the watch in the frame that holds the variable. -/
theorem Itinerary.assign
    (leading : Leading realm rel onward)
    (through : Through realm rel run)
    (name value : Text)
    {mode : Mode}
    (notFresh : mode ≠ .fresh)
    {machine : Machine σ}
    (held : realm.holds machine.interpreter) :
    ∃ calls, Itinerary realm rel onward run (fun run => setVariable run name value mode) machine
      calls := by
  cases unnamed : name.isEmpty with
  | true =>
      refine ⟨[], (Itinerary.of_still (leading.refl machine) :
        Itinerary realm rel onward run (fun _ => Pure.pure none) machine []).of_apply leading
          (leading.refl machine) fun run => ?_⟩
      simp only [setVariable, unnamed]
      rfl
  | false =>
      have bordersOwner := owner_root_or_current mode name machine.interpreter
      have isStored := leading.move held
        (.store _ name value bordersOwner)
      obtain ⟨answer, frames, world, stored, -⟩ :=
        store_apply (owner mode name machine.interpreter) name value machine
      have storing : Itinerary realm rel onward run (fun _ =>
          store (owner mode name machine.interpreter) name value) machine [] :=
        .of_still isStored
      have watching : ∃ calls, Itinerary realm rel onward run (fun run =>
          afterStoring run name (Composed.assigned? mode name machine.interpreter) answer)
          ⟨{ machine.interpreter with frames }, world⟩ calls := by
        rw [final_of_ok stored] at isStored
        have heldThere := leading.holds isStored held
        cases answer with
        | none =>
            exact ⟨[], .of_still (leading.refl _)⟩
        | some kept =>
            cases known : Composed.assigned? mode name machine.interpreter with
            | none =>
                exact ⟨[], .of_still (leading.refl _)⟩
            | some found =>
                have isOwner : owner mode name machine.interpreter = found.1 := by
                  rw [owner, known]
                  rfl
                have borders : ({ machine.interpreter with frames } : Interpreter σ).Borders
                    found.1 := by
                  rw [isOwner] at bordersOwner
                  exact bordersOwner.elim .inl fun isCurrent => .inr (.inl isCurrent)
                have runs : ∃ calls, Itinerary realm rel onward run
                    (fun run => runWatch run found.1 found.2.watch)
                    ⟨{ machine.interpreter with frames }, world⟩ calls := by
                  simp only [runWatch]
                  split
                  · exact Itinerary.visit leading through found.2.watch true (fun _ => ())
                      (fun after => after.interpreter.down) heldThere borders
                      (fun id isDown => .inr (.inr (.inr isDown))) (fun _ => .inr rfl)
                      fun _ => rfl
                  · exact ⟨[], .of_still (leading.refl _)⟩
                obtain ⟨calls, itinerary⟩ := runs
                exact Itinerary.exists_bind leading itinerary fun _ after _ _ =>
                  ⟨[], .of_still (leading.refl after)⟩
      obtain ⟨calls, watched⟩ := watching
      exact ⟨[] ++ calls, (storing.bind leading stored watched).of_apply leading
        (leading.refl machine) fun run => setVariable_apply run unnamed value notFresh machine⟩

/-- A declaration puts an empty variable where there is none. -/
theorem Itinerary.declare
    (leading : Leading realm rel onward)
    (allowed : realm.allowed .declareLocal)
    (name : Text)
    {machine : Machine σ}
    (held : realm.holds machine.interpreter) :
    Itinerary realm rel onward run (fun run => Eval.declare run name) machine [] := by
  have still : ∀ after, rel machine after →
      (∀ run : Run σ, Eval.declare run name machine = .ok () after) →
      Itinerary realm rel onward run (fun run => Eval.declare run name) machine [] := by
    intro after leads same
    have pausing : Itinerary realm rel onward run (fun _ => (Pure.pure () : Eval σ Unit)) after
        [] :=
      .of_still (leading.refl after)
    exact pausing.of_apply leading leads same
  cases known : machine.interpreter.currentFrame.bindings.get? name with
  | some entry =>
      refine still machine (leading.refl machine) fun run => ?_
      simp only [Eval.declare, inspect_bind_apply, Table.contains, known]
      rfl
  | none =>
      cases unnamed : name.isEmpty with
      | true =>
          refine still machine (leading.refl machine) fun run => ?_
          simp only [Eval.declare, inspect_bind_apply, Table.contains, known, setVariable, unnamed]
          rfl
      | false =>
          refine still _ (leading.move held (.declare name allowed known)) fun run => ?_
          simp only [Eval.declare, inspect_bind_apply, Table.contains, known, setVariable, unnamed]
          rfl

/-- A variable that is put into a new frame might have been there from the start. -/
theorem putVariable_pushed
    (frame : Frame)
    (name : Text)
    (entry : Variable)
    (machine : Machine σ) :
    { pushed frame machine with
      interpreter := (pushed frame machine).interpreter.putVariable
        (pushed frame machine).interpreter.current name entry } =
      pushed { frame with bindings := frame.bindings.insert name entry } machine := by
  have modified : (machine.interpreter.frames.push frame).modify machine.interpreter.frames.size
        (fun frame => { frame with bindings := frame.bindings.insert name entry }) =
      machine.interpreter.frames.push
        { frame with bindings := frame.bindings.insert name entry } := by
    refine Array.ext (by simp) fun index inside _ => ?_
    rw [Array.getElem_modify, Array.getElem_push, Array.getElem_push]
    by_cases isOld : index < machine.interpreter.frames.size
    · simp [isOld, Nat.ne_of_gt isOld]
    · have isNew : machine.interpreter.frames.size = index := by
        simp at inside
        omega
      simp [isNew]
  simp only [pushed, frameRecord, Interpreter.putVariable, Interpreter.updateFrame,
    Interpreter.addFrame, modified]
  rfl

/-- The variables that are put into a new frame might have been there from the start. -/
theorem setVariables_pushed
    (id : FrameId)
    (pairs : List (Text × Text)) :
    ∀ frame : Frame, frame.bindings.Ordered → frame.bindings.OwnedBy id →
      ∃ bindings : Table Variable, bindings.Ordered ∧ bindings.OwnedBy id ∧
        ∀ (run : Run σ) (machine : Machine σ), machine.interpreter.frames.size = id →
          setVariables run .fresh pairs (pushed frame machine) =
            .ok () (pushed { frame with bindings } machine) := by
  induction pairs with
  | nil =>
      exact fun frame ordered owned => ⟨frame.bindings, ordered, owned, fun _ _ _ => rfl⟩
  | cons pair rest inductionHypothesis =>
      intro frame ordered owned
      cases unnamed : pair.1.isEmpty with
      | true =>
          obtain ⟨bindings, orderedBindings, ownedBindings, puts⟩ :=
            inductionHypothesis frame ordered owned
          refine ⟨bindings, orderedBindings, ownedBindings, fun run machine isNext => ?_⟩
          rw [← puts run machine isNext]
          simp only [setVariables, setVariable, unnamed]
          rfl
      | false =>
          let entry : Variable := { name := pair.1, owner := id, value := pair.2 }
          obtain ⟨bindings, orderedBindings, ownedBindings, puts⟩ := inductionHypothesis
            { frame with bindings := frame.bindings.insert pair.1 entry }
            (ordered.insert _ _) (owned.insert rfl rfl)
          refine ⟨bindings, orderedBindings, ownedBindings, fun run machine isNext => ?_⟩
          subst isNext
          rw [← puts run machine rfl, ← putVariable_pushed]
          simp only [setVariables, setVariable, unnamed]
          rfl

theorem Callee.setVariables_pushed
    (callee : Callee)
    (pairs : List (Text × Text))
    (caller id : FrameId) :
    ∃ bindings : Table Variable, bindings.Ordered ∧ bindings.OwnedBy id ∧
      ∀ (run : Run σ) (machine : Machine σ), machine.interpreter.frames.size = id →
        setVariables run .fresh pairs (pushed (callee.frame caller) machine) =
          .ok () (pushed { callee.frame caller with bindings } machine) :=
  Eval.setVariables_pushed id pairs _ (by cases callee <;> exact Table.ordered_empty)
    (by cases callee <;> exact fun _ _ member => nomatch member)

/-- What runs in a new frame starts with its variables there. -/
theorem Itinerary.inOwnFrame
    (leading : Leading realm rel onward)
    (callee : Callee)
    (pairs : List (Text × Text))
    {action : Run σ → Eval σ α}
    {machine : Machine σ}
    (held : realm.holds machine.interpreter)
    (inside : ∀ start : Machine σ, realm.holds start.interpreter →
      ∃ calls, Itinerary realm rel onward run action start calls) :
    ∃ calls, Itinerary realm rel onward run
      (fun run => Eval.inOwnFrame run callee pairs (action run)) machine calls := by
  obtain ⟨bindings, ordered, owned, puts⟩ := callee.setVariables_pushed pairs
    machine.interpreter.current machine.interpreter.frames.size
  have leads := leading.move held (.push callee ordered owned)
  obtain ⟨calls, itinerary⟩ := inside _ (leading.holds leads held)
  refine ⟨calls, itinerary.of_ensuring leading leads (fun run => ?_) fun after led =>
    leading.pop held led⟩
  have putsFirst : (setVariables run .fresh pairs >>= fun _ => action run)
      (pushed (callee.frame machine.interpreter.current) machine) =
        action run
          (pushed { callee.frame machine.interpreter.current with bindings } machine) :=
    bind_of_ok (puts run machine rfl)
  rw [Eval.inOwnFrame, inspect_bind_apply, inNewFrame_apply, Eval.ensuring, putsFirst]
  rfl

/-- A step that puts no variable is a move. -/
theorem Step.move
    {update : Interpreter σ → Interpreter σ}
    (step : Step (fun _ => false) update)
    (machine : Machine σ) :
    Move realm machine { machine with interpreter := update machine.interpreter } := by
  have asideOf : ∀ change : Frame → Frame, (∀ frame : Frame, frame.SameShape (change frame)) →
      Move realm machine
        { machine with interpreter := machine.interpreter.updateCurrent change } :=
    fun change same => .aside (.updateCurrent machine.interpreter same)
  have sameFrames : ∀ id, (machine.interpreter.frame id).SameShape (machine.interpreter.frame id) :=
    fun _ => .refl _
  cases step with
  | putVariable _ _ _ reached =>
      exact nomatch reached
  | define name parameters body =>
      exact .define name parameters body
  | rename old new =>
      cases attempted : machine.interpreter.rename old new with
      | error reason =>
          simp only [attempted]
          exact .aside ⟨rfl, rfl, rfl, rfl, rfl, rfl, rfl, rfl, rfl, sameFrames⟩
      | ok renamed =>
          simp only [attempted]
          exact .rename attempted
  | finish value =>
      exact asideOf _ fun _ => ⟨rfl, rfl, rfl, rfl⟩
  | provide value =>
      exact asideOf _ fun _ => ⟨rfl, rfl, rfl, rfl⟩
  | resume =>
      exact asideOf _ fun _ => ⟨rfl, rfl, rfl, rfl⟩
  | take =>
      exact asideOf _ fun _ => ⟨rfl, rfl, rfl, rfl⟩
  | _ =>
      exact .aside ⟨rfl, rfl, rfl, rfl, rfl, rfl, rfl, rfl, rfl, sameFrames⟩

/-- Interpreters that differ only in control have the same frames. -/
theorem Move.of_control
    (machine : Machine σ)
    (active : List Nat)
    (source : Text)
    (error : Option ScriptError)
    (catchers : Nat) :
    Move realm machine
      { machine with interpreter :=
        { machine.interpreter with active, source, error, catchers } } :=
  .aside ⟨rfl, rfl, rfl, rfl, rfl, rfl, rfl, rfl, rfl, fun _ => .refl _⟩

/-- Every assembled action has an itinerary wherever it starts in its realm. -/
theorem Assembled.exists_itinerary
    (leading : Leading realm rel onward)
    (through : Through realm rel run)
    {action : Run σ → Eval σ α}
    (assembled : Assembled realm action) :
    ∀ machine : Machine σ, realm.holds machine.interpreter →
      ∃ calls, Itinerary realm rel onward run action machine calls := by
  induction assembled with
  | pure value =>
      exact fun machine _ => ⟨[], .of_still (leading.refl machine)⟩
  | bind _ _ firstItinerary nextItinerary =>
      intro machine held
      obtain ⟨calls, itinerary⟩ := firstItinerary machine held
      exact itinerary.exists_bind leading fun value between _ leads =>
        nextItinerary value between (leading.holds leads held)
  | consult view _ _ nextItinerary =>
      intro machine held
      obtain ⟨calls, itinerary⟩ := nextItinerary machine.interpreter held machine held
      exact ⟨calls, itinerary.of_apply leading (leading.refl machine) fun _ => rfl⟩
  | step step =>
      exact fun machine held => ⟨[], .of_still (leading.move held (step.move machine))⟩
  | record offset reason =>
      intro machine held
      refine ⟨[], .of_still ?_⟩
      rw [final, raiseAt, interpreter_bind_apply]
      cases machine.interpreter.error with
      | some error =>
          exact leading.refl machine
      | none =>
          have raised := leading.move held (.of_control machine machine.interpreter.active
            machine.interpreter.source (some (.locate reason machine.interpreter.source offset))
            machine.interpreter.catchers)
          have touches : ∀ entry, realm.Touches fun world : World σ => world.record entry :=
            fun _ => .inl fun _ => .record _
          exact leading.trans raised
            (leading.move (leading.holds raised held) (.touch (touches _)))
  | drop _ =>
      exact fun machine held => ⟨[], .of_still (leading.move held (.of_control machine
        machine.interpreter.active machine.interpreter.source none
        machine.interpreter.catchers))⟩
  | ask asks =>
      exact fun machine held => ⟨[], .of_still (leading.move held (.touch asks.touches))⟩
  | cancellation =>
      intro machine _
      refine ⟨[], .of_still ?_⟩
      rw [final, Eval.cancellation]
      cases machine.interpreter.context <;> exact leading.refl machine
  | halt stop _ _ =>
      exact fun machine _ => ⟨[], .of_still (leading.refl machine)⟩
  | nested code ownResult =>
      exact fun machine held => ⟨_, .nested leading through code ownResult held⟩
  | assign name value notFresh =>
      exact fun machine held => Itinerary.assign leading through name value notFresh held
  | declare name allowed =>
      exact fun machine held => ⟨[], .declare leading allowed name held⟩
  | watch name code allowed =>
      exact fun machine held => ⟨[], .of_still (leading.move held (.watch name code allowed))⟩
  | heading heading code _ =>
      exact fun machine held => Itinerary.heading leading through heading code held
  | inOwnFrame callee pairs _ inside =>
      exact fun machine held => Itinerary.inOwnFrame leading callee pairs held inside
  | inCatcher _ inside =>
      intro machine held
      have leads := leading.move held (.of_control machine machine.interpreter.active
        machine.interpreter.source machine.interpreter.error (machine.interpreter.catchers + 1))
      obtain ⟨calls, itinerary⟩ := inside _ (leading.holds leads held)
      refine ⟨calls, itinerary.of_ensuring leading leads (fun _ => rfl) fun after led => ?_⟩
      exact leading.move (leading.holds led (leading.holds leads held)) (.of_control after
        after.interpreter.active after.interpreter.source after.interpreter.error
        machine.interpreter.catchers)
  | catching code _ _ _ _ refusedItinerary passedItinerary caughtItinerary =>
      intro machine held
      have looks : ∀ machine : Machine σ,
          Itinerary realm rel onward run (fun _ => Eval.hasError) machine [] :=
        fun machine => .of_still (leading.refl machine)
      refine (looks machine).exists_bind leading fun pending start looked _ => ?_
      cases looked
      split
      · exact refusedItinerary machine held
      · have runs := Itinerary.nested leading through code false held
        refine runs.exists_bind leading fun value between _ leads => ?_
        have heldThere := leading.holds leads held
        refine (looks between).exists_bind leading fun failed after looked _ => ?_
        cases looked
        split
        · have clears : Itinerary realm rel onward run (fun _ => clearError) between [] :=
            .of_still (leading.move heldThere (.of_control between between.interpreter.active
              between.interpreter.source none between.interpreter.catchers))
          exact clears.exists_bind leading fun _ cleared _ led =>
            caughtItinerary cleared (leading.holds led heldThere)
        · exact passedItinerary value between heldThere
  | inJail clean code allowed =>
      exact fun machine held => ⟨_, .inJail leading through allowed clean code held⟩

end Assembled

/-- An assembled action depends on nested code only where its moves lead. -/
theorem Assembled.congr
    {realm : Realm σ}
    {rel : Machine σ → Machine σ → Prop}
    {onward : World σ → World σ → Prop}
    (leading : Leading realm rel onward)
    {run other : Run σ}
    (through : Through realm rel run)
    {action : Run σ → Eval σ α}
    (assembled : Assembled realm action)
    {machine : Machine σ}
    (held : realm.holds machine.interpreter)
    (agree : ∀ call, Reached realm rel machine call → call.result other = call.result run) :
    action other machine = action run machine := by
  obtain ⟨calls, itinerary⟩ := assembled.exists_itinerary leading through machine held
  exact itinerary.determined other fun call member => agree call (itinerary.reached call member)

/-! ## Scripts -/

section Scripts

variable {scope : Scope σ} {rel : Machine σ → Machine σ → Prop}
  {onward : World σ → World σ → Prop}

/-- Every script has an itinerary. -/
theorem script_exists_itinerary
    (leading : Leading scope.toRealm rel onward)
    (drops : scope.drops)
    {run : Run σ}
    (through : Through scope.toRealm rel run)
    (rounds : Nat)
    (code : Text)
    (ownResult : Bool)
    {machine : Machine σ}
    (held : scope.holds machine.interpreter) :
    ∃ calls, Itinerary scope.toRealm rel onward run
      (fun run => script run rounds code ownResult) machine calls := by
  have body : Assembled scope.toRealm _ :=
    .scriptBody rounds code ownResult machine.interpreter.active.isEmpty fun _ => drops
  have enters := leading.move held (.of_control machine (0 :: machine.interpreter.active)
    (entered code machine).interpreter.source machine.interpreter.error
    machine.interpreter.catchers)
  obtain ⟨calls, itinerary⟩ :=
    body.exists_itinerary leading through (entered code machine) (leading.holds enters held)
  refine ⟨calls, itinerary.of_ensuring leading enters
    (fun run => script_apply run rounds code ownResult machine) fun after led => ?_⟩
  exact leading.move (leading.holds led (leading.holds enters held)) (.of_control after
    machine.interpreter.active after.interpreter.source after.interpreter.error
    after.interpreter.catchers)

/-- A relation that leads along every run leads through every evaluation, if it does in jails. -/
theorem Leading.through_evaluate
    (leading : Leading scope.toRealm rel onward)
    (drops : scope.drops)
    (jails : ∀ fuel,
      (∀ code ownResult {machine : Machine σ}, scope.holds machine.interpreter →
        rel machine (final (evaluate fuel code ownResult) machine)) →
      scope.allowed .jailEvaluate → ∀ clean code {machine : Machine σ},
        scope.holds machine.interpreter →
        rel machine
          { machine with world :=
            (final (evaluate fuel code true) (jailMachine clean machine)).world })
    (fuel : Nat) :
    Through scope.toRealm rel (evaluate fuel) := by
  have leads : ∀ fuel code ownResult {machine : Machine σ}, scope.holds machine.interpreter →
      rel machine (final (evaluate fuel code ownResult) machine) := by
    intro fuel
    induction fuel with
    | zero =>
        exact fun _ _ machine _ => leading.refl machine
    | succ fuel inductionHypothesis =>
        intro code ownResult machine held
        have through : Through scope.toRealm rel (evaluate fuel) :=
          ⟨inductionHypothesis, jails _ inductionHypothesis⟩
        obtain ⟨calls, itinerary⟩ :=
          script_exists_itinerary leading drops through fuel code ownResult held
        exact itinerary.ends
  exact ⟨leads fuel, jails _ (leads fuel)⟩

end Scripts

end LittleScript.Eval
