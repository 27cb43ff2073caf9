import LittleScript.Proofs.ControlState
import LittleScript.Proofs.FirstError
import LittleScript.Proofs.ListRoundTrip

namespace LittleScript.Eval

/-!
# How deeply evaluations nest

A stack holds the evaluations that are active at one point of an evaluation, each one nested in the
one before.  Each interpreter counts its own: an evaluation on an interpreter with a limit nests at
most as many as the limit says and one more, which ends the outermost one there.  A jail starts to
count anew, so that over all interpreters the bound grows with the number of jails in the stack.
-/

variable {σ : Type}

/-- The calls that are active at a point of a run with some fuel, outermost first. -/
inductive Stack : Nat → Call σ → List (Call σ) → Prop where
  | here (fuel : Nat) (call : Call σ) :
      Stack fuel call [call]
  | deeper {fuel : Nat} {call next : Call σ} {calls : List (Call σ)} :
      Makes (fun run => script run fuel call.code call.ownResult) (evaluate fuel) call.machine
        next →
      Stack fuel next calls →
      Stack (fuel + 1) call (call :: calls)

/-- Whether a call is the first one on its interpreter. -/
def Call.isFirst (call : Call σ) : Bool :=
  call.machine.interpreter.active.isEmpty

/-- How many jails the calls of a stack have opened. -/
def jailsIn (calls : List (Call σ)) : Nat :=
  calls.tail.countP Call.isFirst

/-- A call on an interpreter with given limits and active evaluations, without host commands. -/
def Call.AtDepth (limits : Limits) (depth : Nat) (call : Call σ) : Prop :=
  call.machine.interpreter.AtDepth (fun _ => True) limits depth

/-! ## One call -/

/-- A jail starts with the limits of its parent and nothing active. -/
theorem jail_atDepth
    {limits : Limits}
    {parent : Interpreter σ}
    (within : parent.Within (fun _ => True) limits)
    (clean : Bool)
    (context : Context) :
    ({ jailInterpreter parent clean with context } : Interpreter σ).AtDepth (fun _ => True)
      limits 0 := by
  obtain ⟨sameLimits, idle⟩ := Interpreter.limits_active_jail parent clean
  have jailed := (within.hostFree.jail clean).within
  refine ⟨⟨jailed.offers, sameLimits.trans within.limits⟩, ?_⟩
  exact List.length_eq_zero_iff.mpr idle

/--
A script within the limit calls nested code one deeper on its interpreter, or first on the
interpreter of a jail; beyond the limit it calls none.  A call elsewhere may be answered in any way,
for nobody asks.
-/
theorem Makes.deeper
    {fuel depth : Nat}
    {limits : Limits}
    {call next : Call σ}
    (makes : Makes (fun run => script run fuel call.code call.ownResult) (evaluate fuel)
      call.machine next)
    (standing : call.AtDepth limits depth) :
    depth < limits.evaluations ∧ (next.AtDepth limits (depth + 1) ∨ next.AtDepth limits 0) := by
  obtain ⟨answer, differs⟩ := makes
  constructor
  · refine Nat.lt_of_not_le fun exceeds => ?_
    have beyond : call.machine.interpreter.limits.evaluations ≤ call.machine.interpreter.depth := by
      rwa [standing.limits, standing.depth]
    obtain ⟨world, refused⟩ := script_of_beyond call.code call.ownResult beyond
    exact differs ((refused _ _).trans (refused _ _).symm)
  · refine Classical.byContradiction fun elsewhere => ?_
    rw [not_or] at elsewhere
    have agree : AgreeOn (.among (fun _ => True) limits)
        (Interpreter.AtDepth (fun _ => True) limits (depth + 1)) (fun _ => False) (evaluate fuel)
        (answering (evaluate fuel) next answer) := by
      constructor
      · intro code ownResult machine standing
        refine .inl (answering_of_ne ?_).symm
        rintro rfl
        exact elsewhere.1 standing
      · intro _ parent clean context code world within
        refine (answering_of_ne ?_).symm
        rintro rfl
        exact elsewhere.2 (jail_atDepth within clean context)
    rcases script_endAlike_atDepth agree (evaluate_comesBack fuel (depth + 1)) fuel call.code
      call.ownResult standing
      with same | ⟨_, _, impossible, _⟩
    · exact differs same.symm
    · exact impossible

/-! ## Stacks -/

namespace Stack

variable {fuel depth : Nat} {limits : Limits} {call : Call σ} {calls : List (Call σ)}

/-- A stack starts with its outermost call. -/
theorem eq_cons
    (stack : Stack fuel call calls) :
    calls = call :: calls.tail := by
  cases stack with
  | here fuel call => rfl
  | deeper _ _ => rfl

/-- The first calls of a stack are a stack. -/
theorem initial
    (stack : Stack fuel call calls)
    {first : List (Call σ)}
    (starts : first <+: calls)
    (nonempty : first ≠ []) :
    Stack fuel call first := by
  induction stack generalizing first with
  | here fuel call =>
      rcases List.prefix_cons_iff.mp starts with rfl | ⟨rest, rfl, restStarts⟩
      · exact absurd rfl nonempty
      · rw [List.prefix_nil.mp restStarts]
        exact .here _ _
  | deeper makes _ inductionHypothesis =>
      rcases List.prefix_cons_iff.mp starts with rfl | ⟨rest, rfl, restStarts⟩
      · exact absurd rfl nonempty
      · by_cases ended : rest = []
        · rw [ended]
          exact .here _ _
        · exact .deeper makes (inductionHypothesis restStarts ended)

/-- The last calls of a stack are a stack, with as much less fuel as there are calls before. -/
theorem innermost
    (stack : Stack fuel call calls)
    (standing : call.AtDepth limits depth)
    (allowed : depth ≤ limits.evaluations)
    {head : Call σ}
    {rest : List (Call σ)}
    (ends : head :: rest <:+ calls) :
    ∃ remaining lower, Stack remaining head (head :: rest) ∧ head.AtDepth limits lower ∧
      lower ≤ limits.evaluations ∧ remaining + calls.length = fuel + (head :: rest).length := by
  induction stack generalizing depth with
  | here fuel call =>
      rcases List.suffix_cons_iff.mp ends with whole | inside
      · cases whole
        exact ⟨fuel, depth, .here _ _, standing, allowed, rfl⟩
      · cases List.suffix_nil.mp inside
  | @deeper fuel call next calls makes inner inductionHypothesis =>
      rcases List.suffix_cons_iff.mp ends with whole | inside
      · cases whole
        exact ⟨fuel + 1, depth, .deeper makes inner, standing, allowed, rfl⟩
      · obtain ⟨room, deeper | jailed⟩ := makes.deeper standing
        · obtain ⟨remaining, lower, found⟩ := inductionHypothesis deeper room inside
          refine ⟨remaining, lower, found.1, found.2.1, found.2.2.1, ?_⟩
          rw [List.length_cons, ← Nat.add_assoc, found.2.2.2, Nat.add_right_comm]
        · obtain ⟨remaining, lower, found⟩ :=
            inductionHypothesis jailed (Nat.zero_le _) inside
          refine ⟨remaining, lower, found.1, found.2.1, found.2.2.1, ?_⟩
          rw [List.length_cons, ← Nat.add_assoc, found.2.2.2, Nat.add_right_comm]

/-- A first call opens a jail for the calls before it. -/
theorem jailsIn_cons
    (stack : Stack fuel call calls)
    (outer : Call σ) :
    jailsIn (outer :: calls) = jailsIn calls + if call.isFirst then 1 else 0 := by
  rw [jailsIn, List.tail_cons, stack.eq_cons, List.countP_cons]
  rfl

/--
With the evaluations that are active before it, a stack on one interpreter exceeds the limit by one
at most; each jail allows for as many more as the limit.
-/
theorem length_le
    (stack : Stack fuel call calls)
    (standing : call.AtDepth limits depth)
    (allowed : depth ≤ limits.evaluations) :
    calls.length + depth ≤ (jailsIn calls + 1) * limits.evaluations + 1 := by
  induction stack generalizing depth with
  | here fuel call =>
      simpa [jailsIn, Nat.add_comm] using allowed
  | @deeper fuel call next calls makes inner inductionHypothesis =>
      obtain ⟨room, deeper | jailed⟩ := makes.deeper standing
      · have notFirst : next.isFirst = false := by
          have active := deeper.depth
          rw [Interpreter.depth] at active
          rw [Call.isFirst, List.isEmpty_eq_false_iff]
          exact List.ne_nil_of_length_eq_add_one active
        have bound := inductionHypothesis deeper room
        rw [inner.jailsIn_cons, notFirst]
        simpa [Nat.add_right_comm, Nat.add_assoc, Nat.add_comm, Nat.add_left_comm] using bound
      · have isFirst : next.isFirst = true :=
          List.isEmpty_iff.mpr (List.length_eq_zero_iff.mp jailed.depth)
        have bound := inductionHypothesis jailed (Nat.zero_le _)
        rw [inner.jailsIn_cons, isFirst, if_pos rfl, Nat.succ_mul, List.length_cons]
        omega

/-- A stack on one interpreter leads to its innermost call. -/
theorem nested
    (stack : Stack fuel call calls)
    (standing : call.AtDepth limits depth)
    (together : jailsIn calls = 0) :
    ∃ remaining inner lower, Nested fuel call remaining inner ∧ inner.AtDepth limits lower ∧
      lower + 1 = depth + calls.length ∧ remaining + calls.length = fuel + 1 := by
  induction stack generalizing depth with
  | here fuel call =>
      exact ⟨fuel, call, depth, .here _ _, standing, rfl, rfl⟩
  | @deeper fuel call next calls makes inner inductionHypothesis =>
      rw [inner.jailsIn_cons, Nat.add_eq_zero_iff] at together
      obtain ⟨noJails, notFirst⟩ := together
      have busy : next.machine.interpreter.active ≠ [] := by
        intro idle
        simp [Call.isFirst, idle] at notFirst
      rcases (makes.deeper standing).2 with deeper | jailed
      · obtain ⟨remaining, innermost, lower, nested, atDepth, sized, fuelled⟩ :=
          inductionHypothesis deeper noJails
        refine ⟨remaining, innermost, lower, .deeper makes busy nested, atDepth, ?_, ?_⟩
        · rw [sized, List.length_cons]
          omega
        · rw [List.length_cons]
          omega
      · exact absurd (List.length_eq_zero_iff.mp jailed.depth) busy

/-- With one call too many a stack on one interpreter ends its outermost call. -/
theorem tooDeep
    (stack : Stack fuel call calls)
    (standing : call.AtDepth limits depth)
    (together : jailsIn calls = 0)
    (exceeds : depth + calls.length = limits.evaluations + 1)
    (enough : calls.length ≤ fuel) :
    ∃ after, evaluate fuel call.code call.ownResult call.machine =
      .error (.tooDeep ⟨limits.evaluations, limits.evaluations + 1⟩) after := by
  obtain ⟨remaining, inner, lower, nested, atDepth, sized, fuelled⟩ :=
    stack.nested standing together
  obtain ⟨remaining, rfl⟩ : ∃ fewer, remaining = fewer + 1 :=
    Nat.exists_eq_add_one_of_ne_zero (by omega)
  have atLimit : lower = limits.evaluations := Nat.succ.inj (sized.trans exceeds)
  have sameLimit : inner.machine.interpreter.limits.evaluations = limits.evaluations :=
    congrArg Limits.evaluations atDepth.limits
  have sameDepth : inner.machine.interpreter.depth = limits.evaluations :=
    atDepth.depth.trans atLimit
  obtain ⟨stoppedAt, stopped⟩ := evaluate_tooDeep remaining inner
    (Nat.le_of_eq (sameLimit.trans sameDepth.symm))
  rw [sameLimit, sameDepth] at stopped
  exact nested.stops standing.hostFree stopped

end Stack

/--
Every evaluation of a host on an idle interpreter without host commands keeps, on each interpreter,
to the limit.  Calls that are active together on one interpreter are at most one more than the
limit, and if they are, the evaluation that is outermost there ends by nesting too deeply; on the
interpreter of the host that is the fatal error of its evaluation.  Over all interpreters there are
at most as many active calls as the limit for the host's and for each jail, and one more.
-/
theorem nesting_bounded_on_each_interpreter
    (fuel : Nat)
    (context : Context)
    (code : Text)
    (machine : Machine σ)
    (free : machine.interpreter.HostFree)
    (idle : machine.interpreter.active = [])
    (calls : List (Call σ))
    (stack : Stack fuel (outermostCall context code machine) calls) :
    (∀ segment, segment <:+: calls → jailsIn segment = 0 →
        segment.length ≤ machine.interpreter.limits.evaluations + 1) ∧
      calls.length ≤ (jailsIn calls + 1) * machine.interpreter.limits.evaluations + 1 ∧
      (∀ first rest, first :: rest <:+ calls → jailsIn (first :: rest) = 0 →
        (first :: rest).length = machine.interpreter.limits.evaluations + 1 →
        calls.length ≤ fuel →
        first.isFirst = true ∧
          ∃ after, evaluate (fuel + (first :: rest).length - calls.length) first.code
              first.ownResult first.machine =
            .error (.tooDeep ⟨machine.interpreter.limits.evaluations,
              machine.interpreter.limits.evaluations + 1⟩) after) ∧
      (jailsIn calls = 0 → calls.length = machine.interpreter.limits.evaluations + 1 →
        calls.length ≤ fuel →
        (machine.perform (evaluateIn (evaluate fuel) context code)).1 =
          .finished ⟨[], some (.fatal ⟨machine.interpreter.limits.evaluations,
            machine.interpreter.limits.evaluations + 1⟩)⟩) := by
  have standing : (outermostCall context code machine).AtDepth machine.interpreter.limits 0 :=
    ⟨⟨free.within.offers, rfl⟩, List.length_eq_zero_iff.mpr idle⟩
  refine ⟨?_, ?_, ?_, ?_⟩
  · intro segment inside together
    cases segment with
    | nil =>
        exact Nat.zero_le _
    | cons first rest =>
        obtain ⟨longer, ⟨more, rfl⟩, ends⟩ := List.infix_iff_prefix_suffix.mp inside
        obtain ⟨remaining, lower, inner, atDepth, allowed, -⟩ :=
          stack.innermost standing (Nat.zero_le _) ends
        have alone := inner.initial (List.prefix_append (first :: rest) more) (by simp)
        have bound := alone.length_le atDepth allowed
        rw [together, Nat.zero_add, Nat.one_mul] at bound
        exact Nat.le_trans (Nat.le_add_right _ _) bound
  · exact stack.length_le standing (Nat.zero_le _)
  · intro first rest ends together exceeds enough
    obtain ⟨remaining, lower, inner, atDepth, allowed, fuelled⟩ :=
      stack.innermost standing (Nat.zero_le _) ends
    have bound := inner.length_le atDepth allowed
    rw [together, exceeds, Nat.zero_add, Nat.one_mul] at bound
    obtain rfl : lower = 0 := Nat.le_zero.mp (Nat.le_of_add_le_add_left bound)
    constructor
    · exact List.isEmpty_iff.mpr (List.length_eq_zero_iff.mp atDepth.depth)
    · rw [← fuelled, Nat.add_sub_cancel]
      exact inner.tooDeep atDepth together (by rw [exceeds, Nat.zero_add]) (by omega)
  · intro together exceeds enough
    obtain ⟨after, stopped⟩ := stack.tooDeep standing together (by rw [exceeds, Nat.zero_add]) enough
    exact perform_of_tooDeep idle stopped

/-! ## Scripts with one command -/

/-- What the only command of a script starts on. -/
def calledOn (code : Text) (ownResult : Bool) (machine : Machine σ) : Machine σ :=
  marked (prepared ownResult machine.interpreter.active.isEmpty (entered code machine)) 0

/-- As the innermost evaluation the text of a list calls it as its only command. -/
theorem scriptBody_written
    (run : Run σ)
    (rounds : Nat)
    (name : Text)
    (arguments : List Text)
    (ownResult : Bool)
    {machine : Machine σ}
    (within : machine.interpreter.depth < machine.interpreter.limits.evaluations)
    (unfailed : opening machine = none)
    (uncancelled :
      machine.interpreter.context = .running → machine.world.cancellation = none) :
    scriptBody run rounds (ListText.write (name :: arguments)) ownResult
        machine.interpreter.active.isEmpty (entered (ListText.write (name :: arguments)) machine) =
      (dispatch run rounds (name :: arguments) >>= fun value =>
          reportError >>= fun _ => settleValue ownResult value)
        (calledOn (ListText.write (name :: arguments)) ownResult machine) := by
  have ran := runCommands_of_within run rounds (ListText.write (name :: arguments)) ownResult
    machine.interpreter.active.isEmpty
    (show (entered (ListText.write (name :: arguments)) machine).interpreter.depth ≤ _ from within)
  have called := runText_written run rounds machine.interpreter.active.isEmpty name arguments
    ((prepared_error (ListText.write (name :: arguments)) ownResult machine).trans unfailed)
    (by cases ownResult <;> cases machine.interpreter.active.isEmpty <;> exact uncancelled)
  rw [scriptBody_eq]
  cases dispatched : dispatch run rounds (name :: arguments)
      (calledOn (ListText.write (name :: arguments)) ownResult machine) with
  | error stop after =>
      rw [bind_of_error (called.trans dispatched)] at ran
      rw [bind_of_error dispatched, bind_of_error ran]
  | ok value after =>
      obtain ⟨world, reported⟩ := reportError_apply after
      rw [bind_of_ok (called.trans dispatched), bind_of_ok reported] at ran
      rw [bind_of_ok dispatched, bind_of_ok reported, bind_of_ok ran]

/-- A script that is the text of a list calls it as its only command. -/
theorem script_written
    (run : Run σ)
    (rounds : Nat)
    (name : Text)
    (arguments : List Text)
    (ownResult : Bool)
    {machine : Machine σ}
    (within : machine.interpreter.depth < machine.interpreter.limits.evaluations)
    (unfailed : opening machine = none)
    (uncancelled :
      machine.interpreter.context = .running → machine.world.cancellation = none) :
    script run rounds (ListText.write (name :: arguments)) ownResult machine =
      ensuring (dispatch run rounds (name :: arguments) >>= fun value =>
          reportError >>= fun _ => settleValue ownResult value)
        (left machine)
        (calledOn (ListText.write (name :: arguments)) ownResult machine) := by
  rw [script_apply, ensuring,
    scriptBody_written run rounds name arguments ownResult within unfailed uncancelled, ensuring]

/-! ## A script that opens a jail -/

/-- A machine on which a host can start an evaluation, and nothing cancels it. -/
structure Ready (machine : Machine σ) : Prop where
  free : machine.interpreter.HostFree
  idle : machine.interpreter.active = []
  background : machine.interpreter.context = .background
  allowed : 0 < machine.interpreter.limits.evaluations

theorem Ready.fresh
    (limits : Limits)
    (callbacks : Callbacks σ)
    (world : World σ)
    (allowed : 0 < limits.evaluations) :
    Ready ⟨Interpreter.fresh limits callbacks, world⟩ := by
  have free := Interpreter.HostFree.fresh limits callbacks
  obtain ⟨functions, commands, system, isFresh⟩ := Interpreter.fresh_eq limits callbacks
  rw [isFresh] at free ⊢
  exact ⟨free, rfl, rfl, allowed⟩

theorem Ready.outermost
    {machine : Machine σ}
    (ready : Ready machine)
    (code : Text) :
    Ready (outermostCall .background code machine).machine :=
  ⟨ready.free, ready.idle, rfl, ready.allowed⟩

/-- Evaluation there is not cancelled. -/
theorem Ready.uncancelled
    {machine : Machine σ}
    (ready : Ready machine)
    (running : machine.interpreter.context = .running) :
    machine.world.cancellation = none := by
  cases ready.background.symm.trans running

/-- A stop of its commands stops a script. -/
theorem script_stops
    {run : Run σ}
    {rounds : Nat}
    {code : Text}
    {machine after : Machine σ}
    {stop : Stop}
    (ready : Ready machine)
    (stopped : runText run rounds ⟨true, false⟩ code (prepared true true (entered code machine)) =
      .error stop after) :
    script run rounds code true machine = .error stop (left machine after) := by
  have within : (entered code machine).interpreter.depth ≤
      (entered code machine).interpreter.limits.evaluations := by
    simpa [entered, Interpreter.depth, ready.idle] using Nat.succ_le_of_lt ready.allowed
  have body : scriptBody run rounds code true true (entered code machine) = .error stop after := by
    rw [scriptBody_eq]
    have ran := runCommands_of_within run rounds code true true within
    rw [bind_of_error stopped] at ran
    exact bind_of_error ran
  rw [script_apply, ready.idle, List.isEmpty_nil, ensuring, body]

/-- A stop of its only command stops a script. -/
theorem script_written_stops
    {run : Run σ}
    (rounds : Nat)
    (name : Text)
    (arguments : List Text)
    {machine after : Machine σ}
    {stop : Stop}
    (ready : Ready machine)
    (stopped : dispatch run rounds (name :: arguments)
      (marked (prepared true true (entered (ListText.write (name :: arguments)) machine)) 0) =
        .error stop after) :
    script run rounds (ListText.write (name :: arguments)) true machine =
      .error stop (left machine after) := by
  have called : runText run rounds ⟨true, false⟩ (ListText.write (name :: arguments))
      (prepared true true (entered (ListText.write (name :: arguments)) machine)) = _ :=
    runText_written run rounds true name arguments rfl ready.uncancelled
  exact script_stops ready (called.trans stopped)

/-- The call with which code in a jail of an interpreter starts. -/
def jailedCall (code : Text) (clean : Bool) (machine : Machine σ) : Call σ :=
  outermostCall machine.interpreter.context code
    { final (log "jail created" [("clean", .flag clean)]) machine with
      interpreter := jailInterpreter machine.interpreter clean }

/-- Only nesting too deeply is confined to a jail, no other stop. -/
theorem jailEvaluate_stops
    {run : Run σ}
    {code : Text}
    {clean : Bool}
    {machine after : Machine σ}
    {stop : Stop}
    (stopped : run code true (jailedCall code clean machine).machine = .error stop after)
    (notDeep : ∀ error, stop ≠ .tooDeep error) :
    ∃ ended, jailEvaluate run code clean machine = .error stop ended := by
  have reported : runReporting run code (jailedCall code clean machine).machine =
      .error stop after := by
    rw [runReporting, bind_of_error stopped]
  have evaluated : ∃ ended, onInterpreter (jailInterpreter machine.interpreter clean)
      (evaluateIn run machine.interpreter.context code)
      (final (log "jail created" [("clean", .flag clean)]) machine) = .error stop ended := by
    rw [onInterpreter, interpreter_bind_apply, change_bind_apply, ensuring,
      evaluateIn_of_idle _ _ _ (Interpreter.active_jail _ _), catchTooDeep, ensuring]
    have same : (outermostCall machine.interpreter.context code
        { final (log "jail created" [("clean", .flag clean)]) machine with
          interpreter := jailInterpreter machine.interpreter clean }).machine =
      (jailedCall code clean machine).machine := rfl
    rw [same, reported]
    cases stop with
    | tooDeep error => exact absurd rfl (notDeep error)
    | crash => exact ⟨_, rfl⟩
    | exhausted => exact ⟨_, rfl⟩
  obtain ⟨ended, evaluated⟩ := evaluated
  have logged : log "jail created" [("clean", .flag clean)] machine =
      .ok () (final (log "jail created" [("clean", .flag clean)]) machine) := rfl
  refine ⟨ended, ?_⟩
  rw [jailEvaluate, interpreter_bind_apply, bind_of_ok logged, bind_of_error evaluated]

/-- Whether a name means a built-in command. -/
def isBuiltin (interpreter : Interpreter σ) (name : Text) (command : Builtin) : Bool :=
  match interpreter.command? name with
  | some ⟨_, .builtin found⟩ => found == command
  | _ => false

/-- A built-in command is called under any name that means it. -/
theorem dispatch_of_isBuiltin
    (run : Run σ)
    (rounds : Nat)
    {name : Text}
    {command : Builtin}
    (arguments : List Text)
    {machine : Machine σ}
    (means : isBuiltin machine.interpreter name command = true) :
    dispatch run rounds (name :: arguments) machine =
      (callBuiltin run rounds command arguments >>= settle) machine := by
  rw [isBuiltin] at means
  split at means
  case h_1 title found isFound =>
    obtain rfl : found = command := by simpa using means
    exact dispatch_of_command? run rounds (name :: arguments) isFound
  case h_2 =>
    cases means

/-- The script that runs code in a jail. -/
def jailing (code : Text) : Text :=
  ListText.write [Builtin.name .jailEvaluate, code]

/-- What the only command of that script is called on. -/
def jailingStart (code : Text) (machine : Machine σ) : Machine σ :=
  marked (prepared true true (entered (jailing code) machine)) 0

theorem isBuiltin_withContext
    (interpreter : Interpreter σ)
    (context : Context)
    (name : Text)
    (command : Builtin) :
    isBuiltin { interpreter with context } name command = isBuiltin interpreter name command :=
  rfl

/-- A jail depends on what a script does before it opens the jail only through commands. -/
theorem jailInterpreter_congr
    {parent other : Interpreter σ}
    (limits : parent.limits = other.limits)
    (callbacks : parent.callbacks = other.callbacks)
    (hostCommands : parent.hostCommands = other.hostCommands)
    (clean : Bool) :
    jailInterpreter parent clean = jailInterpreter other clean := by
  rw [jailInterpreter, jailInterpreter, limits, callbacks, hostCommands]

/-- The jail has the commands of a jail that is opened before the script. -/
theorem isBuiltin_jailed
    (code : Text)
    (machine : Machine σ)
    (name : Text)
    (command : Builtin) :
    isBuiltin (jailedCall code false (jailingStart code machine)).machine.interpreter name command =
      isBuiltin (jailInterpreter machine.interpreter false) name command := by
  have same : jailInterpreter (jailingStart code machine).interpreter false =
      jailInterpreter machine.interpreter false :=
    jailInterpreter_congr rfl rfl rfl false
  rw [← same]
  exact isBuiltin_withContext _ _ name command

/-- In the jail a host could start an evaluation, too. -/
theorem Ready.jailed
    {machine : Machine σ}
    (ready : Ready machine)
    (code : Text) :
    Ready (jailedCall code false (jailingStart code machine)).machine := by
  obtain ⟨sameLimits, idle⟩ :=
    Interpreter.limits_active_jail (jailingStart code machine).interpreter false
  have free : (jailingStart code machine).interpreter.HostFree := ready.free
  refine ⟨free.jail false, idle, ready.background, ?_⟩
  exact Nat.lt_of_lt_of_eq ready.allowed (congrArg Limits.evaluations sameLimits).symm

/-- The script makes the call of the code in the jail. -/
theorem makes_jailing
    (fuel : Nat)
    (code : Text)
    {machine : Machine σ}
    (ready : Ready machine)
    (known : isBuiltin machine.interpreter (Builtin.name .jailEvaluate) .jailEvaluate = true) :
    Makes (fun run => script run fuel (jailing code) true) (evaluate fuel) machine
      (jailedCall code false (jailingStart code machine)) := by
  have crashes : ∀ run : Run σ, ∀ after,
      run code true (jailedCall code false (jailingStart code machine)).machine =
        .error .crash after →
      ∃ ended, script run fuel (jailing code) true machine = .error .crash ended := by
    intro run after crashed
    obtain ⟨ended, jailCrashed⟩ := jailEvaluate_stops crashed (by simp)
    have called : callBuiltin run fuel .jailEvaluate [code] (jailingStart code machine) =
        .error .crash ended :=
      bind_of_error jailCrashed
    have knownThere : isBuiltin (jailingStart code machine).interpreter
        (Builtin.name .jailEvaluate) .jailEvaluate = true := known
    have dispatched : dispatch run fuel [Builtin.name .jailEvaluate, code]
        (jailingStart code machine) = .error .crash ended :=
      (dispatch_of_isBuiltin run fuel [code] knownThere).trans (bind_of_error called)
    exact ⟨_, script_written_stops fuel _ [code] ready dispatched⟩
  refine ⟨.error .crash machine, fun same => ?_⟩
  obtain ⟨ended, crashed⟩ := crashes
    (answering (evaluate fuel) (jailedCall code false (jailingStart code machine))
      (.error .crash machine)) machine (if_pos rfl)
  exact evaluate_uncrashed (fuel + 1) (jailing code) true machine ended ready.free
    (same.symm.trans crashed)

/-- Where no two evaluations may be nested, code nested in a jail has two calls before it. -/
theorem exists_stack_bracketed
    {machine : Machine σ}
    (ready : Ready machine)
    (known : isBuiltin machine.interpreter (Builtin.name .jailEvaluate) .jailEvaluate = true)
    (limit : machine.interpreter.limits.evaluations = 1) :
    ∃ outer first inner : Call σ,
      Stack 3 (outermostCall .background (jailing bracketed) machine) [outer, first, inner] ∧
        jailsIn [first, inner] = 0 := by
  have opens := makes_jailing 2 bracketed (ready.outermost (jailing bracketed)) known
  have jailed := (ready.outermost (jailing bracketed)).jailed bracketed
  have sameLimits := (Interpreter.limits_active_jail (jailingStart bracketed
    (outermostCall .background (jailing bracketed) machine).machine).interpreter false).1
  have nests := makes_bracketed 0 _ jailed.idle jailed.background
    ((congrArg Limits.evaluations sameLimits).trans limit)
  exact ⟨_, _, _, .deeper opens (.deeper nests (.here 1 _)), rfl⟩

/-- A jail in a jail has two calls before it. -/
theorem exists_stack_jailing
    (code : Text)
    {machine : Machine σ}
    (ready : Ready machine)
    (known : isBuiltin machine.interpreter (Builtin.name .jailEvaluate) .jailEvaluate = true)
    (knownInside : isBuiltin (jailInterpreter machine.interpreter false)
      (Builtin.name .jailEvaluate) .jailEvaluate = true) :
    ∃ outer first inner : Call σ,
      Stack 3 (outermostCall .background (jailing (jailing code)) machine)
        [outer, first, inner] := by
  have outside := ready.outermost (jailing (jailing code))
  have opens := makes_jailing 2 (jailing code) outside known
  have opensInside := makes_jailing 1 code (outside.jailed (jailing code))
    ((isBuiltin_jailed _ _ _ _).trans knownInside)
  exact ⟨_, _, _, .deeper opens (.deeper opensInside (.here 1 _))⟩

theorem ready_shallow :
    Ready shallow :=
  .fresh _ _ _ Nat.one_pos

theorem limit_shallow :
    shallow.interpreter.limits.evaluations = 1 := by
  decide +kernel

/-- On the shallow machine code can open jails. -/
theorem isBuiltin_shallow :
    isBuiltin shallow.interpreter (Builtin.name .jailEvaluate) .jailEvaluate = true := by
  decide +kernel

/-- Where no two evaluations may be nested, nested code in a jail is the one too many there. -/
theorem nesting_bounded_on_each_interpreter_jailed :
    ∃ outer first inner : Call Unit,
      Stack 3 (outermostCall .background (jailing bracketed) shallow) [outer, first, inner] ∧
        jailsIn [first, inner] = 0 ∧
        [outer, first, inner].length ≤ (jailsIn [outer, first, inner] + 1) * 1 + 1 ∧
        first.isFirst = true ∧
        ∃ after, evaluate 2 first.code first.ownResult first.machine =
          .error (.tooDeep ⟨1, 2⟩) after := by
  obtain ⟨outer, first, inner, stack, together⟩ :=
    exists_stack_bracketed ready_shallow isBuiltin_shallow limit_shallow
  obtain ⟨-, bound, ends, -⟩ := nesting_bounded_on_each_interpreter 3 .background
    (jailing bracketed) shallow ready_shallow.free ready_shallow.idle _ stack
  rw [limit_shallow] at bound ends
  obtain ⟨isFirst, stops⟩ := ends first [inner] (List.suffix_cons _ _) together rfl (Nat.le_refl 3)
  exact ⟨outer, first, inner, stack, together, bound, isFirst, stops⟩

end LittleScript.Eval
