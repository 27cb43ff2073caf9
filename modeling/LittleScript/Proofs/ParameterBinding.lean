import LittleScript.Proofs.ListRoundTrip
import LittleScript.Proofs.ReturnStatements

namespace LittleScript

/-!
# Parameters of a called function

A call makes a frame that holds the parameters and nothing else, before the body of the function
starts.  A parameter takes the argument of its position, a missing argument is empty, and a last
parameter of the name `args` takes all arguments that are left over as a list.  The binding itself
runs no code and asks no host.
-/

variable {σ : Type}

namespace Table

/-- Bind names to values in a frame, one after the other; the empty name is left out. -/
def bindAll (table : Table Variable) (owner : FrameId) : List (Text × Text) → Table Variable
  | [] => table
  | (name, value) :: rest =>
      bindAll (if name.isEmpty then table else table.insert name { name, owner, value }) owner rest

theorem bindAll_append
    (table : Table Variable)
    (owner : FrameId)
    (first second : List (Text × Text)) :
    table.bindAll owner (first ++ second) = (table.bindAll owner first).bindAll owner second := by
  induction first generalizing table with
  | nil =>
      rfl
  | cons pair rest inductionHypothesis =>
      exact inductionHypothesis _

/-- A name that is not bound, or is empty, keeps what it had. -/
theorem get?_bindAll_of_unbound
    {name : Text}
    (pairs : List (Text × Text))
    (unbound : name = [] ∨ name ∉ pairs.map Prod.fst)
    (table : Table Variable)
    (owner : FrameId) :
    (table.bindAll owner pairs).get? name = table.get? name := by
  induction pairs generalizing table with
  | nil =>
      rfl
  | cons pair rest inductionHypothesis =>
      obtain ⟨bound, value⟩ := pair
      have unboundLater : name = [] ∨ name ∉ rest.map Prod.fst :=
        unbound.imp id fun absent member => absent (List.mem_cons_of_mem _ member)
      rw [bindAll, inductionHypothesis unboundLater]
      cases nameless : bound.isEmpty with
      | true =>
          rfl
      | false =>
          have differs : name ≠ bound := by
            rintro rfl
            rcases unbound with rfl | absent
            · simp at nameless
            · exact absent (by simp)
          simp [get?_insert, differs]

/-- Of the values that a name is bound to the last one counts. -/
theorem get?_bindAll_of_last
    {name : Text}
    (named : name ≠ [])
    (value : Text)
    (before : List (Text × Text))
    {after : List (Text × Text)}
    (last : name ∉ after.map Prod.fst)
    (table : Table Variable)
    (owner : FrameId) :
    (table.bindAll owner (before ++ (name, value) :: after)).get? name =
      some { name, owner, value } := by
  have notEmpty : name.isEmpty = false := by simpa using named
  rw [bindAll_append, bindAll, get?_bindAll_of_unbound after (.inr last), notEmpty]
  simp [get?_insert]

end Table

namespace Eval

/-! ## Values by position -/

/-- What the parameter of a position takes of the arguments. -/
def parameterValue (parameters arguments : List Text) (position : Nat) : Text :=
  if position + 1 = parameters.length ∧ parameters[position]? = some restParameter then
    ListText.write (arguments.drop position)
  else arguments.getD position []

theorem parameterValue_zero
    (name : Text)
    (arguments : List Text) :
    parameterValue [name] arguments 0 =
      if name == restParameter then ListText.write arguments else arguments.headD [] := by
  cases arguments <;> simp [parameterValue, beq_iff_eq]

theorem parameterValue_first
    (name next : Text)
    (rest arguments : List Text) :
    parameterValue (name :: next :: rest) arguments 0 = arguments.headD [] := by
  cases arguments <;> simp [parameterValue]

theorem parameterValue_succ
    (name : Text)
    (rest arguments : List Text)
    (position : Nat) :
    parameterValue (name :: rest) arguments (position + 1) =
      parameterValue rest arguments.tail position := by
  cases arguments <;> simp [parameterValue]

/-- The pairs of names and values keep the parameters in their order. -/
theorem names_bindings
    (parameters arguments : List Text) :
    (bindings parameters arguments).map Prod.fst = parameters := by
  induction parameters, arguments using bindings.induct with
  | case1 arguments =>
      rfl
  | case2 arguments name takesRest =>
      simp [bindings, takesRest]
  | case3 arguments name takesOne =>
      simp [bindings, takesOne]
  | case4 arguments name rest notLast inductionHypothesis =>
      rw [bindings, List.map_cons, inductionHypothesis]
      exact notLast

theorem getElem?_bindings
    (parameters arguments : List Text)
    (position : Nat) :
    (bindings parameters arguments)[position]? =
      parameters[position]?.map fun name =>
        (name, parameterValue parameters arguments position) := by
  induction parameters generalizing arguments position with
  | nil =>
      rfl
  | cons name rest inductionHypothesis =>
      cases rest with
      | nil =>
          cases position with
          | zero =>
              rw [parameterValue_zero]
              simp only [bindings]
              split <;> rfl
          | succ position =>
              simp only [bindings]
              split <;> rfl
      | cons next others =>
          have opened : bindings (name :: next :: others) arguments =
              (name, arguments.headD []) :: bindings (next :: others) arguments.tail :=
            rfl
          cases position with
          | zero =>
              rw [opened, parameterValue_first]
              rfl
          | succ position =>
              rw [opened, parameterValue_succ]
              exact inductionHypothesis arguments.tail position

/-! ## The frame of a call -/

/-- The variables of a called function when its body starts in a frame. -/
def parameterTable (parameters arguments : List Text) (owner : FrameId) : Table Variable :=
  Table.empty.bindAll owner (bindings parameters arguments)

/-- The frame holds nothing but the parameters that have a name. -/
theorem get?_parameterTable_of_unbound
    {parameters : List Text}
    (arguments : List Text)
    {name : Text}
    (unbound : name = [] ∨ name ∉ parameters)
    (owner : FrameId) :
    (parameterTable parameters arguments owner).get? name = none := by
  rw [← names_bindings parameters arguments] at unbound
  exact Table.get?_bindAll_of_unbound _ unbound _ owner

/-- A parameter holds the value of the last position at which its name stands. -/
theorem get?_parameterTable
    {parameters : List Text}
    (arguments : List Text)
    {name : Text}
    (named : name ≠ [])
    {position : Nat}
    (isThere : parameters[position]? = some name)
    (isLast : ∀ later, position < later → parameters[later]? ≠ some name)
    (owner : FrameId) :
    (parameterTable parameters arguments owner).get? name =
      some { name, owner, value := parameterValue parameters arguments position } := by
  let pairs := bindings parameters arguments
  have found : pairs[position]? = some (name, parameterValue parameters arguments position) := by
    rw [getElem?_bindings, isThere]
    rfl
  obtain ⟨inside, isPair⟩ := List.getElem?_eq_some_iff.mp found
  have opened : pairs = pairs.take position ++
      (name, parameterValue parameters arguments position) :: pairs.drop (position + 1) := by
    rw [← isPair, ← List.drop_eq_getElem_cons inside, List.take_append_drop]
  have notLater : name ∉ (pairs.drop (position + 1)).map Prod.fst := by
    intro member
    rw [List.map_drop, names_bindings] at member
    obtain ⟨index, isIndex⟩ := List.getElem?_of_mem member
    rw [List.getElem?_drop] at isIndex
    exact isLast _ (by omega) isIndex
  rw [parameterTable, show bindings parameters arguments = _ from opened]
  exact Table.get?_bindAll_of_last named _ _ notLater _ owner

/-- Assigning fresh variables in a new frame puts them there, in their order. -/
theorem setVariables_pushed_eq
    (run : Run σ)
    (pairs : List (Text × Text))
    (frame : Frame)
    (machine : Machine σ) :
    setVariables run .fresh pairs (pushed frame machine) =
      .ok () (pushed
        { frame with bindings := frame.bindings.bindAll machine.interpreter.frames.size pairs }
        machine) := by
  induction pairs generalizing frame with
  | nil =>
      rfl
  | cons pair rest inductionHypothesis =>
      obtain ⟨name, value⟩ := pair
      cases nameless : name.isEmpty with
      | true =>
          have goesOn := inductionHypothesis frame
          simp only [Table.bindAll, nameless, if_true]
          rw [← goesOn]
          simp only [setVariables, setVariable, nameless]
          rfl
      | false =>
          have goesOn := inductionHypothesis
            { frame with
              bindings := frame.bindings.insert name
                { name, owner := machine.interpreter.frames.size, value } }
          simp only [Table.bindAll, nameless, Bool.false_eq_true, if_false]
          rw [← goesOn, ← putVariable_pushed]
          simp only [setVariables, setVariable, nameless]
          rfl

/-- The frame in which the body of a called function starts. -/
def callFrame (id : FunctionId) (parameters arguments : List Text) (caller own : FrameId) :
    Frame where
  parent := some caller
  function := some id
  bindings := parameterTable parameters arguments own

/-- The body of a called function starts in its frame, whatever runs code. -/
theorem calleeStart_eq
    (id : FunctionId)
    (title : Text)
    (parameters arguments : List Text)
    (machine : Machine σ) :
    calleeStart id title parameters arguments machine =
      pushed
        (callFrame id parameters arguments machine.interpreter.current
          machine.interpreter.frames.size)
        (final (log "call function"
          [("name", .text title), ("args", .number arguments.length)]) machine) :=
  final_of_ok (setVariables_pushed_eq (evaluate 0) (bindings parameters arguments)
    ((Callee.function id).frame machine.interpreter.current) _)

/--
A call starts the body of the function in a new frame that owns each parameter that has a name,
with the argument of the last position of that name, or empty behind the arguments; a last parameter
`args` holds a text that reads as the list of all arguments from its position on.  Apart from that
frame, which is the current one, only records of the log tell the start from the machine of the
call, whatever runs code and whatever the host listens to.
-/
theorem call_binds_parameters
    {machine : Machine σ}
    {name : Text}
    {id : FunctionId}
    {title body : Text}
    {parameters : List Text}
    (named : machine.interpreter.commands.get? name = some id)
    (found : machine.interpreter.function? id = some ⟨title, .script parameters body⟩)
    (arguments : List Text) :
    ∃ (frame : Frame) (start : Machine σ),
      (∀ (run : Run σ) (rounds : Nat),
        dispatch run rounds (name :: arguments) machine =
          ensuring (run body true) (popped machine) start) ∧
      start.interpreter =
        { machine.interpreter with
          frames := machine.interpreter.frames.push frame
          current := machine.interpreter.frames.size } ∧
      (∃ records, start.world = { machine.world with records }) ∧
      (∃ bindings, frame =
        { parent := some machine.interpreter.current, function := some id, bindings }) ∧
      (∀ variableName, variableName = [] ∨ variableName ∉ parameters →
        frame.bindings.get? variableName = none) ∧
      (∀ position parameter, parameter ≠ [] → parameters[position]? = some parameter →
        (∀ later, position < later → parameters[later]? ≠ some parameter) →
        ∃ value,
          frame.bindings.get? parameter =
            some { name := parameter, owner := machine.interpreter.frames.size, value } ∧
          (position + 1 = parameters.length ∧ parameter = restParameter →
            ∀ (run : Run σ) (reading : Machine σ), reading.interpreter.error = none →
              readList run value reading = .ok (arguments.drop position) reading) ∧
          (¬(position + 1 = parameters.length ∧ parameter = restParameter) →
            value = arguments.getD position [])) := by
  refine ⟨callFrame id parameters arguments machine.interpreter.current
      machine.interpreter.frames.size,
    calleeStart id title parameters arguments machine, ?_, ?_, ?_, ⟨_, rfl⟩, ?_, ?_⟩
  · intro run rounds
    rw [dispatch_of_script run rounds arguments named found, callScript_apply]
  · rw [calleeStart_eq]
    rfl
  · rw [calleeStart_eq]
    exact ⟨_, rfl⟩
  · intro variableName unbound
    exact get?_parameterTable_of_unbound arguments unbound _
  · intro position parameter hasName isThere isLast
    refine ⟨_, get?_parameterTable arguments hasName isThere isLast _, ?_, ?_⟩
    · intro takesRest run reading noError
      have isRest : parameterValue parameters arguments position =
          ListText.write (arguments.drop position) := by
        rw [parameterValue, if_pos ⟨takesRest.1, by rw [isThere, takesRest.2]⟩]
      have read := words_written ⟨false, true⟩ run
        ((ListText.write (arguments.drop position)).length + 1) reading noError
        (arguments.drop position) (Nat.lt_succ_self _)
      rw [isRest, readList, bind_of_ok read]
      rfl
    · intro takesOne
      rw [parameterValue, if_neg]
      rintro ⟨atEnd, isRest⟩
      exact takesOne ⟨atEnd, Option.some.inj (isThere.symm.trans isRest)⟩

/-- A machine with a function `f` whose parameters are `x`, `x` again, no name, and `args`. -/
def gathering : Machine Unit where
  interpreter := ({} : Interpreter Unit).define [0x66]
    (.script [[0x78], [0x78], [], restParameter] [])
  world := { host := () }

/--
A function with a parameter named twice, one without a name and the rest is called with more
arguments than it names.
-/
theorem call_binds_parameters_gathering :
    ∃ (frame : Frame) (start : Machine Unit),
      dispatch (evaluate 2) 2 [[0x66], [0x31], [0x32], [0x33], [0x34, 0x20], []] gathering =
        ensuring (evaluate 2 [] true) (popped gathering) start ∧
      start.interpreter.frames[1]? = some frame ∧
      frame.bindings.get? [] = none ∧
      frame.bindings.get? [0x79] = none ∧
      frame.bindings.get? [0x78] = some { name := [0x78], owner := 1, value := [0x32] } ∧
      ∃ value,
        frame.bindings.get? restParameter = some { name := restParameter, owner := 1, value } ∧
        readList (evaluate 2) value gathering = .ok [[0x34, 0x20], []] gathering := by
  have named : gathering.interpreter.commands.get? [0x66] = some 0 := rfl
  obtain ⟨frame, start, runs, sameInterpreter, -, -, unbound, bound⟩ :=
    call_binds_parameters named rfl [[0x31], [0x32], [0x33], [0x34, 0x20], []]
  have lastIs : ∀ (position : Nat) (parameter : Text),
      (∀ later < 4, position < later →
        [[0x78], [0x78], [], restParameter][later]? ≠ some parameter) →
      ∀ later, position < later →
        [[0x78], [0x78], [], restParameter][later]? ≠ some parameter := by
    intro position parameter nearby later behind
    by_cases inside : later < 4
    · exact nearby later inside behind
    · simp [List.getElem?_eq_none (show [[0x78], [0x78], [], restParameter].length ≤ later by
        simpa using inside)]
  obtain ⟨secondValue, second, -, isArgument⟩ :=
    bound 1 [0x78] (by decide) rfl (lastIs 1 _ (by decide))
  obtain ⟨restValue, rest, readsRest, -⟩ :=
    bound 3 restParameter (by decide) rfl (lastIs 3 _ (by decide))
  refine ⟨frame, start, runs (evaluate 2) 2, ?_, unbound _ (.inl rfl),
    unbound _ (.inr (by decide)), ?_, restValue, rest, readsRest ⟨rfl, rfl⟩ _ _ rfl⟩
  · rw [sameInterpreter]
    rfl
  · rw [second, isArgument (by decide)]
    rfl

end Eval

end LittleScript
