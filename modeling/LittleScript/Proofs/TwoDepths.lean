import LittleScript.Proofs.Comparison

namespace LittleScript

/-!
# The same evaluation at two depths

Code may be evaluated with few evaluations below it, or with more.  Two machines match when they
differ in nothing but the commands that the evaluations below have reached, the frame from which
evaluation went up, and the records of the log.  Two actions are alike when they take matching
machines to matching ones with the same value, unless the deeper one is nested too deeply or the
shallow one is barred from going down.  An action is uniform if it is alike at both depths as soon as
the nested code is.
-/

variable {σ α β : Type}

/-- An answer of the world that does not hang on the records of the log. -/
def World.LogBlind (answer : World σ → α × World σ) : Prop :=
  ∀ world records, ∃ later,
    answer { world with records } =
      ((answer world).1, { (answer world).2 with records := later })

/-- Callbacks that do not look at the log. -/
structure Callbacks.LogBlind (callbacks : Callbacks σ) : Prop where
  answers : ∀ {α : Type} {answer : World σ → α × World σ}, callbacks.Answers answer →
    World.LogBlind answer
  assigned : ∀ {handle}, callbacks.setVariable = some handle → ∀ name value,
    World.LogBlind (handle name value)

/-- A jail looks at the log no more than its parent. -/
theorem Callbacks.LogBlind.jail
    {callbacks : Callbacks σ}
    (blind : callbacks.LogBlind) :
    ({ write := callbacks.write } : Callbacks σ).LogBlind where
  answers answers := blind.answers answers.of_jail
  assigned handled := nomatch handled

/-- What a host command does without looking at the log. -/
def HostAction.Quiet : HostAction σ → Prop
  | .reply _ => True
  | .crash => True
  | .touch update next => World.LogBlind (fun world => ((), update world)) ∧ next.Quiet
  | .run _ _ next => ∀ value, (next value).Quiet
  | .evaluate _ next => ∀ result, (next result).Quiet
  | .raise _ next => next.Quiet
  | .raiseAt _ _ next => next.Quiet
  | .pendingError next => ∀ error, (next error).Quiet
  | .clearError next => next.Quiet
  | .pushFrame next => next.Quiet
  | .popFrame next => next.Quiet
  | .frameDepth next => ∀ depth, (next depth).Quiet
  | .frameFunction next => ∀ name, (next name).Quiet
  | .setVariable _ _ _ next => ∀ stored, (next stored).Quiet
  | .watch _ _ next => next.Quiet
  | .upEvaluate _ next => ∀ value, (next value).Quiet
  | .downEvaluate _ next => ∀ value, (next value).Quiet
  | .topEvaluate _ next => ∀ value, (next value).Quiet
  | .isolatedEvaluate _ _ _ next => ∀ value, (next value).Quiet

/--
The terms on which evaluations are compared: the stop that bars the shallow one from going down, if
one does, whether the logs agree, and whether there are host commands.
-/
structure Terms where
  barrier : Option Stop
  sameLog : Bool
  hosts : Bool
  escapes : ∀ error, barrier ≠ some (.tooDeep error)

namespace Terms

/-- A definition that may be called: of a host's only a quiet one, if at all. -/
def Accepts (terms : Terms) : Definition σ → Prop
  | .host command => terms.hosts = true ∧ ∀ arguments, (command arguments).Quiet
  | _ => True

/-- Answers of the world on which the two evaluations agree. -/
def Heeds (terms : Terms) (answer : World σ → α × World σ) : Prop :=
  terms.sameLog = true ∨ World.LogBlind answer

end Terms

/--
Where two evaluations stand: the commands that the evaluations below each of them have reached, of
which the outermost is the same, whether another evaluation is running above those, and whether both
went up from the same frame.
-/
structure Footing where
  shallow : List Nat
  deep : List Nat
  sameOutermost : shallow.getLast? = deep.getLast?
  notHigher : shallow.length ≤ deep.length
  inside : Bool
  sameDown : Bool

namespace Footing

/-- The footing of a jail, with no evaluation below. -/
def jail : Footing where
  shallow := []
  deep := []
  sameOutermost := rfl
  notHigher := Nat.le_refl _
  inside := false
  sameDown := true

/-- The footing of what a further evaluation runs. -/
def within (footing : Footing) : Footing :=
  { footing with inside := true }

/-- The footing of what runs in another frame. -/
def visiting (footing : Footing) : Footing :=
  { footing with sameDown := true }

/-- The deep evaluation has nothing below it just when the shallow one has not. -/
theorem deep_eq_nil_iff
    (footing : Footing) :
    footing.deep = [] ↔ footing.shallow = [] := by
  rw [← List.getLast?_eq_none_iff, ← List.getLast?_eq_none_iff, footing.sameOutermost]

end Footing

/-- A machine with other commands reached, another down frame and other records. -/
def Machine.shifted (machine : Machine σ) (active : List Nat) (down : Option FrameId)
    (records : List LogEntry) : Machine σ where
  interpreter := { machine.interpreter with active, down }
  world := { machine.world with records }

namespace Eval

variable {terms : Terms} {footing : Footing}

/-- What is true of an interpreter throughout a comparison: its errors point at the outermost text. -/
structure Kept (terms : Terms) (footing : Footing) (interpreter : Interpreter σ) : Prop where
  offers : interpreter.OffersOnly terms.Accepts
  heeds : terms.sameLog = true ∨ interpreter.callbacks.LogBlind
  placed : ∀ start, footing.shallow.getLast? = some start →
    ∀ error, interpreter.error = some error →
      ∃ reason, error = .locate reason interpreter.source start

/-- Terms under which there is something to compare on a footing. -/
structure Comparable (terms : Terms) (footing : Footing) : Prop where
  level : terms.sameLog = true → footing.shallow.length = footing.deep.length
  barred : footing.sameDown = true ∨ ∃ stop, terms.barrier = some stop

/-- Two machines that differ in what a footing lets them differ in. -/
inductive Matches (terms : Terms) (footing : Footing) : Machine σ → Machine σ → Prop where
  | of (machine : Machine σ) (above : List Nat) (down : Option FrameId) (records : List LogEntry)
      (active : machine.interpreter.active = above ++ footing.shallow)
      (nested : footing.inside = true → above ≠ [])
      (sameDown : footing.sameDown = true → down = machine.interpreter.down)
      (sameLog : terms.sameLog = true → records = machine.world.records)
      (fit : Comparable terms footing)
      (kept : Kept terms footing machine.interpreter) :
      Matches terms footing machine (machine.shifted (above ++ footing.deep) down records)

/-- Two results that belong together. -/
inductive EndsAlike (terms : Terms) (footing : Footing) :
    EStateM.Result Stop (Machine σ) α → EStateM.Result Stop (Machine σ) α → Prop where
  | ok {value : α} {shallow deep : Machine σ} :
      Matches terms footing shallow deep →
      EndsAlike terms footing (.ok value shallow) (.ok value deep)
  | error {stop : Stop} {shallow deep : Machine σ} :
      Matches terms footing shallow deep →
      EndsAlike terms footing (.error stop shallow) (.error stop deep)
  | barred {stop : Stop} (shallow : Machine σ) (ended : EStateM.Result Stop (Machine σ) α) :
      terms.barrier = some stop →
      EndsAlike terms footing (.error stop shallow) ended
  | tooDeep {error : FatalError} (ended : EStateM.Result Stop (Machine σ) α) (deep : Machine σ) :
      footing.shallow.length < footing.deep.length →
      EndsAlike terms footing ended (.error (.tooDeep error) deep)

/-- Two actions that take matching machines to results that belong together. -/
def Alike (terms : Terms) (footing : Footing) (shallow deep : Eval σ α) : Prop :=
  ∀ first second, Matches terms footing first second →
    EndsAlike terms footing (shallow first) (deep second)

/-- Two ways to run nested code that run it alike on every footing. -/
def RunsAlike (terms : Terms) (shallow deep : Run σ) : Prop :=
  ∀ footing code ownResult, Alike terms footing (shallow code ownResult) (deep code ownResult)

/-- An action that is alike on a footing as soon as the nested code is. -/
structure Uniform (terms : Terms) (footing : Footing) (action : Run σ → Eval σ α) : Prop where
  alike : ∀ shallow deep, RunsAlike terms shallow deep →
    Alike terms footing (action shallow) (action deep)

/-! ## Putting actions together -/

namespace Alike

theorem pure
    (value : α) :
    Alike (σ := σ) terms footing (Pure.pure value) (Pure.pure value) :=
  fun _ _ alike => .ok alike

theorem stop
    (stop : Stop) :
    Alike terms footing (throw stop : Eval σ α) (throw stop) :=
  fun _ _ alike => .error alike

theorem bind
    {shallow deep : Eval σ α}
    {shallowNext deepNext : α → Eval σ β}
    (first : Alike terms footing shallow deep)
    (second : ∀ value, Alike terms footing (shallowNext value) (deepNext value)) :
    Alike terms footing (shallow >>= shallowNext) (deep >>= deepNext) := by
  intro start other alike
  have ends := first start other alike
  cases ranShallow : shallow start with
  | ok value between =>
      cases ranDeep : deep other with
      | ok deepValue deepBetween =>
          rw [ranShallow, ranDeep] at ends
          cases ends with
          | ok alike =>
              rw [bind_of_ok ranShallow, bind_of_ok ranDeep]
              exact second value _ _ alike
      | error stop after =>
          rw [ranShallow, ranDeep] at ends
          cases ends with
          | tooDeep _ _ deeper =>
              rw [bind_of_error ranDeep]
              exact .tooDeep _ _ deeper
  | error stop after =>
      rw [bind_of_error ranShallow]
      cases ranDeep : deep other with
      | ok deepValue deepBetween =>
          rw [ranShallow, ranDeep] at ends
          cases ends with
          | barred _ _ isBarrier => exact .barred _ _ isBarrier
      | error deepStop deepAfter =>
          rw [ranShallow, ranDeep] at ends
          rw [bind_of_error ranDeep]
          cases ends with
          | error alike => exact .error alike
          | barred _ _ isBarrier => exact .barred _ _ isBarrier
          | tooDeep _ _ deeper => exact .tooDeep _ _ deeper

end Alike

/-- What is put back behind results that belong together. -/
theorem EndsAlike.ensuring
    {inner : Footing}
    {shallow deep : Eval σ α}
    {first second : Machine σ}
    {shallowCleanup deepCleanup : Machine σ → Machine σ}
    (ends : EndsAlike terms inner (shallow first) (deep second))
    (deeper : inner.shallow.length < inner.deep.length →
      footing.shallow.length < footing.deep.length)
    (cleans : ∀ start other, Matches terms inner start other →
      Matches terms footing (shallowCleanup start) (deepCleanup other)) :
    EndsAlike terms footing (Eval.ensuring shallow shallowCleanup first)
      (Eval.ensuring deep deepCleanup second) := by
  rw [Eval.ensuring, Eval.ensuring]
  cases ranShallow : shallow first <;> cases ranDeep : deep second <;>
    rw [ranShallow, ranDeep] at ends <;> cases ends
  case ok.ok.ok alike => exact .ok (cleans _ _ alike)
  case ok.error.tooDeep isDeeper => exact .tooDeep _ _ (deeper isDeeper)
  case error.ok.barred isBarrier => exact .barred _ _ isBarrier
  case error.error.error alike => exact .error (cleans _ _ alike)
  case error.error.barred isBarrier => exact .barred _ _ isBarrier
  case error.error.tooDeep isDeeper => exact .tooDeep _ _ (deeper isDeeper)

namespace Matches

variable {first second : Machine σ}

/-- Matching machines have no evaluation running, or both have some. -/
theorem isEmpty_active
    (alike : Matches terms footing first second) :
    second.interpreter.active.isEmpty = first.interpreter.active.isEmpty := by
  obtain ⟨above, down, records, active, -, -, -, -, -⟩ := alike
  have emptyTogether := footing.deep_eq_nil_iff
  rw [active, Bool.eq_iff_iff, List.isEmpty_iff, List.isEmpty_iff]
  simp only [Machine.shifted, List.append_eq_nil_iff, emptyTogether]

/-- The outermost evaluations of matching machines have reached the same command. -/
theorem getLast?_active
    (alike : Matches terms footing first second) :
    second.interpreter.active.getLast? = first.interpreter.active.getLast? := by
  obtain ⟨above, down, records, active, -, -, -, -, -⟩ := alike
  simp only [Machine.shifted, active, List.getLast?_append, footing.sameOutermost]

/-- A change of the interpreter that neither sees nor makes a difference between matching machines. -/
theorem change
    (alike : Matches terms footing first second)
    (update : Interpreter σ → Interpreter σ)
    (blind : ∀ interpreter active down,
      update { interpreter with active, down } = { update interpreter with active, down })
    (keeps : ∀ interpreter, Kept terms footing interpreter →
      Kept terms footing (update interpreter)) :
    Matches terms footing { first with interpreter := update first.interpreter }
      { second with interpreter := update second.interpreter } := by
  obtain ⟨above, down, records, active, nested, sameDown, sameLog, fit, kept⟩ := alike
  have same : update first.interpreter = { update first.interpreter with
      active := first.interpreter.active, down := first.interpreter.down } :=
    blind first.interpreter first.interpreter.active first.interpreter.down
  have sameActive := congrArg Interpreter.active same
  have downKept := congrArg Interpreter.down same
  have shifted : { first.shifted (above ++ footing.deep) down records with
        interpreter :=
          update (first.shifted (above ++ footing.deep) down records).interpreter } =
      Machine.shifted { first with interpreter := update first.interpreter }
        (above ++ footing.deep) down records := by
    exact congrArg (Machine.mk · _) (blind first.interpreter _ _)
  rw [shifted]
  exact .of { first with interpreter := update first.interpreter } above down records
    (sameActive.trans active) nested
    (fun visited => (sameDown visited).trans downKept.symm) sameLog fit (keeps _ kept)

/-- An answer of the world on which the terms agree. -/
theorem ask
    (alike : Matches terms footing first second)
    {answer : World σ → α × World σ}
    (heeds : terms.Heeds answer) :
    (answer second.world).1 = (answer first.world).1 ∧
      Matches terms footing { first with world := (answer first.world).2 }
        { second with world := (answer second.world).2 } := by
  obtain ⟨above, down, records, active, nested, sameDown, sameLog, fit, kept⟩ := alike
  cases exact : terms.sameLog with
  | true =>
      have sameWorld : (first.shifted (above ++ footing.deep) down records).world =
          first.world := by
        simp only [Machine.shifted, sameLog exact]
      rw [sameWorld]
      exact ⟨rfl, .of { first with world := (answer first.world).2 } above down _ active
        nested sameDown (fun _ => rfl) fit kept⟩
  | false =>
      have blind : World.LogBlind answer := heeds.resolve_left (by simp [exact])
      obtain ⟨later, answers⟩ := blind first.world records
      have asked : answer (first.shifted (above ++ footing.deep) down records).world =
        ((answer first.world).1, { (answer first.world).2 with records := later }) := answers
      rw [asked]
      exact ⟨rfl, .of { first with world := (answer first.world).2 } above down later
        active nested sameDown (by simp [exact]) fit kept⟩

end Matches

end Eval

end LittleScript
