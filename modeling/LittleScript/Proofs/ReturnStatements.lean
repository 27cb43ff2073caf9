import LittleScript.Proofs.CallerResults
import LittleScript.Proofs.ControlBodies
import LittleScript.Proofs.ListRoundTrip

namespace LittleScript.Eval

/-!
# Return statements

A `return` only notes in the frame that its code is being left and with which value.  When it is
called as a statement of a function, however deeply in the bodies of control commands, each of the
scripts and commands around it ends without doing anything more, and the call takes the value.
-/

open Source (Cursor)

variable {σ : Type}

/-! ## Reaching a return statement -/

/-- The words of the next command are read, and it is about to be called on the machine `ready`. -/
structure ReadsCommand (run : Run σ) (reader : Reader) (depth : Nat) (cursor : Cursor)
    (machine : Machine σ) (command : List Text) (after : Cursor) (ready : Machine σ) : Prop where
  going : cursor.rest ≠ []
  unfailed : machine.interpreter.error = none
  uncancelled : machine.interpreter.context = .running → machine.world.cancellation = none
  read : words reader run depth cursor (marked machine cursor.offset) =
    .ok (some (command, after)) ready
  readUnfailed : ready.interpreter.error = none

/-- The script of a code is within the limit and has its first command at the cursor `first`. -/
structure StartsScript (code : Text) (ownResult : Bool) (machine : Machine σ) (first : Cursor)
    (started : Machine σ) : Prop where
  within : machine.interpreter.depth < machine.interpreter.limits.evaluations
  skips : skipBlanks ⟨machine.interpreter.active.isEmpty, false⟩ (.start code)
      (prepared ownResult machine.interpreter.active.isEmpty (entered code machine)) =
    .ok first started

/--
From the cursor on the commands of a script come to call `return` with a value on the machine
`ready`: now, inside a body of so many control commands, or later.
-/
inductive ComesToReturn :
    Nat → Reader → Nat → Nat → Cursor → Machine σ → Text → Machine σ → Nat → Prop where
  | now {fuel depth bound : Nat} {reader : Reader} {cursor after : Cursor}
      {machine ready : Machine σ} {name title value : Text} {arguments : List Text} :
      ReadsCommand (evaluate fuel) reader depth cursor machine (name :: arguments) after ready →
      ready.interpreter.command? name = some ⟨title, .builtin .returnValue⟩ →
      arguments.headD [] = value →
      ComesToReturn fuel reader depth (bound + 1) cursor machine value ready 0
  | inside {fuel depth bound nesting : Nat} {reader : Reader} {cursor after first : Cursor}
      {machine calling entry started ready : Machine σ} {name title code value : Text}
      {arguments : List Text} {command : Builtin} :
      ReadsCommand (evaluate (fuel + 1)) reader depth cursor machine (name :: arguments) after
        calling →
      calling.interpreter.command? name = some ⟨title, .builtin command⟩ →
      RunsBody (evaluate (fuel + 1)) (fuel + 1) command arguments calling code entry →
      StartsScript code false entry first started →
      ComesToReturn fuel ⟨entry.interpreter.active.isEmpty, false⟩ (code.length + 1)
        (code.length + 1) first started value ready nesting →
      ComesToReturn (fuel + 1) reader depth (bound + 1) cursor machine value ready (nesting + 1)
  | later {fuel depth bound nesting : Nat} {reader : Reader} {cursor next : Cursor}
      {machine between ready : Machine σ} {last value : Text} :
      cursor.rest ≠ [] →
      machine.interpreter.error = none →
      commandAt (evaluate fuel) fuel depth reader cursor machine = .ok (last, some next) between →
      ComesToReturn fuel reader depth bound next between value ready nesting →
      ComesToReturn fuel reader depth (bound + 1) cursor machine value ready nesting

/-- `return` is called without an error. -/
theorem ComesToReturn.unfailed
    {fuel depth bound nesting : Nat}
    {reader : Reader}
    {cursor : Cursor}
    {machine ready : Machine σ}
    {value : Text}
    (comes : ComesToReturn fuel reader depth bound cursor machine value ready nesting) :
    ready.interpreter.error = none := by
  induction comes with
  | now reads _ _ => exact reads.readUnfailed
  | inside _ _ _ _ _ inductionHypothesis => exact inductionHypothesis
  | later _ _ _ _ inductionHypothesis => exact inductionHypothesis

/-! ## Leaving a frame -/

/--
The machine behind a `return` that is called on `ready` inside of so many control commands: they
have been counted, and nothing else has happened.
-/
def returned (value : Text) (nesting : Nat) (active : List Nat) (ready : Machine σ) : Machine σ :=
  { ready with interpreter :=
    { ready.interpreter.updateCurrent fun frame =>
        { frame with stopping := true, result := some value } with
      active
      statistics.successes := ready.interpreter.statistics.successes + nesting + 1 } }

theorem currentFrame_updateCurrent
    {interpreter : Interpreter σ}
    (present : interpreter.current < interpreter.frames.size)
    (change : Frame → Frame) :
    (interpreter.updateCurrent change).currentFrame = change interpreter.currentFrame := by
  have same : (interpreter.updateCurrent change).current = interpreter.current := rfl
  rw [Interpreter.currentFrame, same, Interpreter.updateCurrent]
  simp [Interpreter.frame, Interpreter.updateFrame, Interpreter.currentFrame, present,
    Array.getElem_modify]

theorem returned_leaving
    (value : Text)
    (nesting : Nat)
    (active : List Nat)
    {ready : Machine σ}
    (present : ready.interpreter.current < ready.interpreter.frames.size)
    (unfailed : ready.interpreter.error = none) :
    Leaving (returned value nesting active ready) where
  unfailed := unfailed
  stopping := by
    have changed := currentFrame_updateCurrent present fun frame =>
      { frame with stopping := true, result := some value }
    exact congrArg Frame.stopping changed

/-- A command that has been read is called, and the script goes on behind it. -/
theorem ReadsCommand.commands_eq
    {run : Run σ}
    {reader : Reader}
    {depth : Nat}
    {cursor after : Cursor}
    {machine ready : Machine σ}
    {command : List Text}
    (reads : ReadsCommand run reader depth cursor machine command after ready)
    (rounds bound : Nat)
    (last : Text) :
    commands run rounds reader depth (bound + 1) cursor last machine =
      (callCommand run rounds reader command after >>=
        afterRound (commands run rounds reader depth bound)) ready := by
  rw [commands_of_going run rounds reader depth bound reads.going last reads.unfailed]
  have called := commandAt_of_words rounds reads.uncancelled reads.read reads.readUnfailed
  exact bind_congr_first called

/-- The first word of a command names the built-in command that is called. -/
theorem dispatch_of_builtin
    (run : Run σ)
    (rounds : Nat)
    {name title : Text}
    (arguments : List Text)
    {machine after : Machine σ}
    {command : Builtin}
    (means : machine.interpreter.command? name = some ⟨title, .builtin command⟩)
    {value : Text}
    (called : callBuiltin run rounds command arguments machine = .ok (.value value) after) :
    dispatch run rounds (name :: arguments) machine =
      .ok value { after with interpreter := { after.interpreter with
        statistics.successes := after.interpreter.statistics.successes + 1 } } := by
  rw [dispatch_of_command? run rounds (name :: arguments) means]
  exact bind_of_ok called

/-- A script ends at a command that leaves its frame. -/
theorem ReadsCommand.commands_of_leaving
    {run : Run σ}
    {reader : Reader}
    {depth : Nat}
    {cursor after : Cursor}
    {machine ready left : Machine σ}
    {name : Text}
    {arguments : List Text}
    (reads : ReadsCommand run reader depth cursor machine (name :: arguments) after ready)
    (rounds bound : Nat)
    (last : Text)
    {value : Text}
    (called : dispatch run rounds (name :: arguments) ready = .ok value left)
    (leaving : Leaving left) :
    commands run rounds reader depth (bound + 1) cursor last machine = .ok value left := by
  have calledWords : callWords run rounds (name :: arguments) ready = .ok value left := called
  rw [reads.commands_eq rounds bound last]
  exact bind_of_ok (callCommand_of_stopping reader after calledWords leaving.stopping)

/-- A script without an error tells the host nothing. -/
theorem reportError_of_unfailed
    {machine : Machine σ}
    (unfailed : machine.interpreter.error = none) :
    reportError machine = .ok () machine := by
  rw [reportError, interpreter_bind_apply, unfailed]
  cases machine.interpreter.active with
  | nil => rfl
  | cons start rest => cases rest <;> rfl

/-- A script whose commands leave the frame settles its value and is left. -/
theorem StartsScript.evaluate_eq
    {fuel : Nat}
    {code : Text}
    {ownResult : Bool}
    {machine started : Machine σ}
    {first : Cursor}
    (starts : StartsScript code ownResult machine first started)
    {last : Text}
    {between : Machine σ}
    (ran : commands (evaluate fuel) fuel ⟨machine.interpreter.active.isEmpty, false⟩
      (code.length + 1) (code.length + 1) first [] started = .ok last between)
    (unfailed : between.interpreter.error = none) :
    evaluate (fuel + 1) code ownResult machine =
      ensuring (settleValue ownResult last) (left machine) between := by
  have text : runText (evaluate fuel) fuel ⟨machine.interpreter.active.isEmpty, false⟩ code
      (prepared ownResult machine.interpreter.active.isEmpty (entered code machine)) =
        .ok last between :=
    (bind_of_ok starts.skips).trans ran
  have ranCommands : runCommands (evaluate fuel) fuel code ownResult
      machine.interpreter.active.isEmpty (entered code machine) = .ok last between := by
    have within : (entered code machine).interpreter.depth ≤
        (entered code machine).interpreter.limits.evaluations := starts.within
    rw [runCommands_of_within _ _ _ _ _ within, bind_of_ok text,
      bind_of_ok (reportError_of_unfailed unfailed)]
    rfl
  rw [evaluate, script_apply, scriptBody_eq, ensuring, bind_of_ok ranCommands]
  rfl

/-- Whatever comes to a `return` ends there. -/
theorem ComesToReturn.commands_eq
    {fuel depth bound nesting : Nat}
    {reader : Reader}
    {cursor : Cursor}
    {machine ready : Machine σ}
    {value : Text}
    (comes : ComesToReturn fuel reader depth bound cursor machine value ready nesting)
    (present : ready.interpreter.current < ready.interpreter.frames.size)
    (last : Text) :
    ∃ result active, commands (evaluate fuel) fuel reader depth bound cursor last machine =
      .ok result (returned value nesting active ready) := by
  induction comes generalizing last with
  | @now fuel depth bound reader cursor after machine ready name title value arguments reads means
      isValue =>
      subst isValue
      have called : dispatch (evaluate fuel) fuel (name :: arguments) ready =
          .ok (arguments.headD [])
            (returned (arguments.headD []) 0 ready.interpreter.active ready) :=
        dispatch_of_builtin _ _ _ means rfl
      exact ⟨_, _, reads.commands_of_leaving fuel bound last called
        (returned_leaving _ 0 _ present reads.readUnfailed)⟩
  | @inside fuel depth bound nesting reader cursor after first machine calling entry started ready
      name title code value arguments command reads means runsBody starts inner
      inductionHypothesis =>
      obtain ⟨inResult, inActive, inside⟩ := inductionHypothesis present []
      have ran : evaluate (fuel + 1) code false entry =
          .ok inResult (returned value nesting entry.interpreter.active ready) :=
        starts.evaluate_eq inside inner.unfailed
      obtain ⟨result, called⟩ := runsBody.ends ran
        (returned_leaving value nesting entry.interpreter.active present inner.unfailed)
      have dispatched : dispatch (evaluate (fuel + 1)) (fuel + 1) (name :: arguments) calling =
          .ok result (returned value (nesting + 1) entry.interpreter.active ready) :=
        dispatch_of_builtin _ _ _ means called
      exact ⟨_, _, reads.commands_of_leaving (fuel + 1) bound last dispatched
        (returned_leaving value (nesting + 1) _ present inner.unfailed)⟩
  | @later fuel depth bound nesting reader cursor next machine between ready previous value going
      unfailed round _ inductionHypothesis =>
      obtain ⟨result, active, ends⟩ := inductionHypothesis present previous
      refine ⟨result, active, ?_⟩
      rw [commands_of_going _ _ _ _ _ going last unfailed, bind_of_ok round]
      exact ends

/-! ## Calls -/

/-- Where the body of a called function starts: in a frame of its own that has the parameters. -/
def calleeStart (id : FunctionId) (title : Text) (parameters arguments : List Text)
    (machine : Machine σ) : Machine σ :=
  final (setVariables (evaluate 0) .fresh (bindings parameters arguments))
    (pushed ((Callee.function id).frame machine.interpreter.current)
      (final (log "call function" [("name", .text title), ("args", .number arguments.length)])
        machine))

/-- A called function runs its body in its frame, which is then released. -/
theorem callScript_apply
    (run : Run σ)
    (id : FunctionId)
    (title : Text)
    (parameters : List Text)
    (body : Text)
    (arguments : List Text)
    (machine : Machine σ) :
    callScript run id title parameters body arguments machine =
      ensuring (run body true) (popped machine)
        (calleeStart id title parameters arguments machine) := by
  let logged : Machine σ := final
    (log "call function" [("name", .text title), ("args", .number arguments.length)]) machine
  obtain ⟨locals, _, _, puts⟩ := (Callee.function id).setVariables_pushed
    (bindings parameters arguments) machine.interpreter.current logged.interpreter.frames.size
  have start : calleeStart id title parameters arguments machine =
      pushed { (Callee.function id).frame machine.interpreter.current with bindings := locals }
        logged :=
    final_of_ok (puts (evaluate 0) logged rfl)
  have runs : (setVariables run .fresh (bindings parameters arguments) >>= fun _ => run body true)
      (pushed ((Callee.function id).frame machine.interpreter.current) logged) =
        run body true (calleeStart id title parameters arguments machine) := by
    rw [start]
    exact bind_of_ok (puts run logged rfl)
  have called : callScript run id title parameters body arguments machine =
      ensuring (setVariables run .fresh (bindings parameters arguments) >>= fun _ => run body true)
        (popped machine)
        (pushed ((Callee.function id).frame machine.interpreter.current) logged) := rfl
  rw [called, ensuring, ensuring, runs]

theorem active_calleeStart
    (id : FunctionId)
    (title : Text)
    (parameters arguments : List Text)
    (machine : Machine σ) :
    (calleeStart id title parameters arguments machine).interpreter.active =
      machine.interpreter.active := by
  let logged : Machine σ := final
    (log "call function" [("name", .text title), ("args", .number arguments.length)]) machine
  obtain ⟨locals, _, _, puts⟩ := (Callee.function id).setVariables_pushed
    (bindings parameters arguments) machine.interpreter.current logged.interpreter.frames.size
  rw [calleeStart, final_of_ok (puts (evaluate 0) logged rfl)]
  rfl

/--
The machine on which `return` was called inside of so many control commands, when its value has been
taken: they have been counted, and nothing else has happened.
-/
def taken (nesting : Nat) (active : List Nat) (ready : Machine σ) : Machine σ :=
  { ready with interpreter :=
    { ready.interpreter.updateCurrent fun frame =>
        { frame with result := none, stopping := false } with
      active
      statistics.successes := ready.interpreter.statistics.successes + nesting + 1 } }

/-- Of two changes of a frame that set the same fields the later one counts. -/
theorem updateFrame_updateFrame
    (interpreter : Interpreter σ)
    (id : FrameId)
    (first second : Frame → Frame) :
    (interpreter.updateFrame id first).updateFrame id second =
      interpreter.updateFrame id fun frame => second (first frame) := by
  have frames : (interpreter.frames.modify id first).modify id second =
      interpreter.frames.modify id fun frame => second (first frame) := by
    refine Array.ext (by simp) fun index inside _ => ?_
    simp only [Array.getElem_modify]
    split <;> rfl
  simp only [Interpreter.updateFrame, frames]

/-- A script that owns the result takes the value of the `return`. -/
theorem settleValue_returned
    (last value : Text)
    (nesting : Nat)
    (active : List Nat)
    {ready : Machine σ}
    (present : ready.interpreter.current < ready.interpreter.frames.size) :
    settleValue true last (returned value nesting active ready) =
      .ok value (taken nesting active ready) := by
  have provided : (returned value nesting active ready).interpreter.currentFrame.result =
      some value := by
    have changed := currentFrame_updateCurrent present fun frame =>
      { frame with stopping := true, result := some value }
    exact congrArg Frame.result changed
  have takes : takeResult (returned value nesting active ready) =
      .ok (some value) (taken nesting active ready) := by
    have merged := updateFrame_updateFrame ready.interpreter ready.interpreter.current
      (fun frame => { frame with stopping := true, result := some value })
      (fun frame => { frame with result := none, stopping := false })
    rw [takeResult, interpreter_bind_apply, provided]
    have frames := congrArg Interpreter.frames merged
    simp only [taken, Interpreter.updateCurrent, ← merged]
    rfl
  exact bind_of_ok takes

/--
When a called function comes to a `return`, in whatever bodies of control commands in its frame, the
call has its value, and the machine is the one on which the `return` was called, but that the frame
has been left and the commands around it have been counted: no command was called since.

If the call used no command that goes to another frame, what is pending in the frame of the caller
is what was, or it was pending in the root frame and the watch of a global variable took it; and the
caller goes on behind the call unless its frame was already being left.
-/
theorem return_ends_its_call
    (fuel rounds : Nat)
    {name : Text}
    (arguments : List Text)
    {machine : Machine σ}
    {id : FunctionId}
    {title : Text}
    {parameters : List Text}
    {body : Text}
    (named : machine.interpreter.commands.get? name = some id)
    (found : machine.interpreter.function? id = some ⟨title, .script parameters body⟩)
    {first : Cursor}
    {started ready : Machine σ}
    {value : Text}
    {nesting : Nat}
    (starts : StartsScript body true (calleeStart id title parameters arguments machine) first
      started)
    (comes : ComesToReturn fuel ⟨machine.interpreter.active.isEmpty, false⟩ (body.length + 1)
      (body.length + 1) first started value ready nesting)
    (present : ready.interpreter.current < ready.interpreter.frames.size) :
    dispatch (evaluate (fuel + 1)) rounds (name :: arguments) machine =
        .ok value (popped machine (taken nesting machine.interpreter.active ready)) ∧
      (machine.interpreter.current < machine.interpreter.frames.size →
        KeepsToFrame (dispatch (evaluate (fuel + 1)) rounds (name :: arguments)) machine →
          ((((popped machine (taken nesting machine.interpreter.active ready)).interpreter.frame
              machine.interpreter.current).pending = machine.interpreter.currentFrame.pending) ∨
            machine.interpreter.current = rootFrame ∧
              (popped machine (taken nesting machine.interpreter.active ready)).interpreter.ClearAt
                rootFrame) ∧
          (machine.interpreter.currentFrame.stopping = false → ∀ reader after,
            callCommand (evaluate (fuel + 1)) rounds reader (name :: arguments) after machine =
              (nextCommand reader after >>= fun next => pure (value, some next))
                (popped machine (taken nesting machine.interpreter.active ready)))) := by
  have sameActive := active_calleeStart id title parameters arguments machine
  obtain ⟨last, active, ranCommands⟩ := comes.commands_eq present []
  have ranBody : evaluate (fuel + 1) body true
      (calleeStart id title parameters arguments machine) =
        .ok value (taken nesting machine.interpreter.active ready) := by
    rw [← sameActive] at ranCommands
    rw [starts.evaluate_eq ranCommands comes.unfailed, ensuring,
      settleValue_returned last value nesting active present]
    simp only [left, sameActive]
    rfl
  have ends : dispatch (evaluate (fuel + 1)) rounds (name :: arguments) machine =
      .ok value (popped machine (taken nesting machine.interpreter.active ready)) := by
    rw [dispatch_of_script _ rounds arguments named found, callScript_apply, ensuring, ranBody]
  refine ⟨ends, fun callerPresent keeps => ?_⟩
  have means : machine.interpreter.command? name = some ⟨title, .script parameters body⟩ :=
    Option.bind_eq_some_iff.mpr ⟨id, named, found⟩
  have pending := caller_pending (fuel + 1) rounds arguments callerPresent means keeps ends
  refine ⟨pending, fun staying reader after => ?_⟩
  have calledWords : callWords (evaluate (fuel + 1)) rounds (name :: arguments) machine =
      .ok value (popped machine (taken nesting machine.interpreter.active ready)) := ends
  refine callCommand_of_going reader after calledWords ?_
  rcases pending with same | ⟨atRoot, cleared⟩
  · exact (congrArg Prod.snd same).trans staying
  · have here : (popped machine (taken nesting machine.interpreter.active
        ready)).interpreter.current = rootFrame := atRoot
    rw [Interpreter.currentFrame, here]
    exact cleared.2

/-- The function `f`, whose body is `eval return 2`. -/
def evalReturn : List Text :=
  [Text.ofString "eval", Text.ofString "return", [0x32]]

/-- A machine with this function and the commands that its body calls. -/
def returningMachine : Machine Unit where
  interpreter :=
    ((({} : Interpreter Unit).define [0x66] (.script [] (ListText.write evalReturn))).define
      (Text.ofString "return") (.builtin .returnValue)).define
      (Text.ofString "eval") (.builtin .evaluate)
  world := { host := () }

/-- Where the body of the function starts. -/
def bodyStart : Machine Unit :=
  calleeStart 0 [0x66] [] [] returningMachine

/-- Where the code in the body starts. -/
def returnEntry : Machine Unit :=
  marked (prepared true true (entered (ListText.write evalReturn) bodyStart)) 0

/-- Where `return` is called. -/
def returnReady : Machine Unit :=
  marked (prepared false false (entered (ListText.write evalReturn.tail) returnEntry)) 0

theorem returningMachine_comesToReturn :
    ComesToReturn 3 ⟨true, false⟩ ((ListText.write evalReturn).length + 1)
      ((ListText.write evalReturn).length + 1) (.start (ListText.write evalReturn))
      (prepared true true (entered (ListText.write evalReturn) bodyStart)) [0x32] returnReady 1 := by
  have inner : StartsScript (ListText.write evalReturn.tail) false returnEntry
      (.start (ListText.write evalReturn.tail))
      (prepared false false (entered (ListText.write evalReturn.tail) returnEntry)) :=
    ⟨by decide, rfl⟩
  have outer : ReadsCommand (evaluate 3) ⟨true, false⟩ ((ListText.write evalReturn).length + 1)
      (.start (ListText.write evalReturn))
      (prepared true true (entered (ListText.write evalReturn) bodyStart)) evalReturn
      ⟨[], (ListText.write evalReturn).length⟩ returnEntry := by
    refine ⟨by decide, rfl, fun _ => rfl, ?_, rfl⟩
    exact words_written _ _ _ _ rfl evalReturn (Nat.lt_succ_self _)
  have called : ReadsCommand (evaluate 2) ⟨false, false⟩
      ((ListText.write evalReturn.tail).length + 1) (.start (ListText.write evalReturn.tail))
      (prepared false false (entered (ListText.write evalReturn.tail) returnEntry))
      evalReturn.tail ⟨[], (ListText.write evalReturn.tail).length⟩ returnReady := by
    refine ⟨by decide, rfl, fun _ => rfl, ?_, rfl⟩
    exact words_written _ _ _ _ rfl evalReturn.tail (Nat.lt_succ_self _)
  exact .inside outer rfl (.evaluate (by simp)) inner (.now called rfl rfl)

/--
A return in nested code ends its call with its value, and nothing of it reaches the root frame.
None of its commands goes to another frame, so nothing changes where such commands quote.
-/
theorem return_ends_its_call_eval :
    dispatch (evaluate 4) 4 [[0x66]] returningMachine =
        .ok [0x32] (popped returningMachine (taken 1 [] returnReady)) ∧
      ((popped returningMachine (taken 1 [] returnReady)).interpreter.frame rootFrame).pending =
        (none, false) := by
  have starts : StartsScript (ListText.write evalReturn) true
      (calleeStart 0 [0x66] [] [] returningMachine) (.start (ListText.write evalReturn))
      (prepared true true (entered (ListText.write evalReturn) bodyStart)) :=
    ⟨by decide, rfl⟩
  have named : returningMachine.interpreter.commands.get? [0x66] = some 0 := rfl
  obtain ⟨ends, spares⟩ := return_ends_its_call 3 4 [] named rfl starts
    returningMachine_comesToReturn (by decide)
  have sameFunctions : returningMachine.interpreter.functions.map Function.grounded =
      returningMachine.interpreter.functions := by
    simp [returningMachine, Interpreter.define, Function.grounded, Definition.grounded]
  have sameBefore : returningMachine.grounded = returningMachine := by
    simp only [Machine.grounded, Interpreter.grounded, sameFunctions]
  have sameAfter : (popped returningMachine (taken 1 [] returnReady)).grounded =
      popped returningMachine (taken 1 [] returnReady) := by
    have kept : (popped returningMachine (taken 1 [] returnReady)).interpreter.functions =
        returningMachine.interpreter.functions := rfl
    simp only [Machine.grounded, Interpreter.grounded, kept, sameFunctions]
    rfl
  have keeps : KeepsToFrame (dispatch (evaluate 4) 4 [[0x66]]) returningMachine := by
    rw [KeepsToFrame, sameBefore]
    exact ends.trans (congrArg (EStateM.Result.ok [0x32]) sameAfter.symm) |>.trans
      (congrArg groundedEnd ends).symm
  refine ⟨ends, ?_⟩
  rcases (spares (by decide) keeps).1 with same | ⟨_, cleared⟩
  · exact same
  · exact Interpreter.clearAt_iff.mp cleared

/-- A script that has provided a result calls a function that assigns a watched global variable. -/
def watchedCall : Text :=
  Text.ofString
    "set g 0; watch g \x7bquote w\x7d; func f \x7b\x7d \x7bset g 1; return 2\x7d; result 7; f; quote end"

/-- The same script without the watch. -/
def unwatchedCall : Text :=
  Text.ofString
    "set g 0; func f \x7b\x7d \x7bset g 1; return 2\x7d; result 7; f; quote end"

/-- A call takes the result that its caller has provided where it assigns a watched variable. -/
theorem call_takes_result_of_caller :
    unfailed? (evaluate 5 watchedCall true) (Machine.start () {} {}) =
        some (Text.ofString "end") ∧
      unfailed? (evaluate 5 unwatchedCall true) (Machine.start () {} {}) = some [0x37] :=
  ⟨by decide +kernel, by decide +kernel⟩

end LittleScript.Eval
