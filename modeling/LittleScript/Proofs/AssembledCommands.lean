import LittleScript.Proofs.Assembled

namespace LittleScript.Eval.Assembled

/-!
# Commands and scripts are assembled

Every built-in command, script function and catcher is assembled from the parts of evaluation, and
so are calling whichever command a name means and running a script command by command.
-/

variable {σ β : Type} {realm : Realm σ}

/-! ## Variables and frames -/

/-- Read a variable that has been found, or the host's or a default value. -/
def valueOf (name : Text) (default : Option Text)
    (handle : Option (Text → World σ → Option (Option Text) × World σ))
    (target : Option (FrameId × Variable)) : Eval σ (Option Text) := do
  let owner := (target.map Prod.fst).getD rootFrame
  let answer ←
    match handle with
    | some handle => if owner == rootFrame then Eval.ask (handle name) else Pure.pure none
    | none => Pure.pure none
  match answer with
  | some value => return value
  | none =>
      match target with
      | some (_, found) => return some found.value
      | none => return default

/-- What a name is read as comes from the frames, and at most one question to the host. -/
theorem valueOf_assembled
    (name : Text)
    (default : Option Text)
    {interpreter : Interpreter σ}
    (held : realm.holds interpreter)
    (target : Option (FrameId × Variable)) :
    Assembled realm fun _ =>
      valueOf name default interpreter.callbacks.getVariable target := by
  have answered : ∀ answer : Option (Option Text), Assembled realm fun _ =>
      match answer with
      | some value => Pure.pure value
      | none =>
          match target with
          | some (_, found) => Pure.pure (some found.value)
          | none => Pure.pure default := by
    intro answer
    cases answer <;> cases target <;> exact .pure _
  simp only [valueOf]
  split
  case h_1 handle isHandle =>
    split
    · exact .bind (.ask (.callback held (.getVariable name isHandle))) answered
    · exact .bind (.pure _) answered
  case h_2 =>
    exact .bind (.pure _) answered

/-- A name that is read is looked up in the current frame and in the root frame. -/
theorem getVariableD
    (name : Text)
    (default : Option Text) :
    Assembled realm fun _ => Eval.getVariableD name default := by
  have asValue :
      Eval.getVariableD (σ := σ) name default = interpreter >>= fun interpreter =>
        valueOf name default interpreter.callbacks.getVariable (interpreter.visible? name) := rfl
  rw [asValue]
  refine look (fun run interpreter held => ?_) fun _ held => valueOf_assembled _ _ held _
  rw [Interpreter.visible?_veiled realm.root (realm.current held)]
  rfl

/-- A name that means nothing is read as nothing, which takes no part of its own. -/
theorem getVariable
    (name : Text) :
    Assembled realm fun _ => Eval.getVariable name :=
  .bind (getVariableD ..) fun _ => .pure _

/-- Names are read one after the other. -/
theorem getVariables
    (names : List Text) :
    Assembled realm fun _ => Eval.getVariables names := by
  induction names with
  | nil =>
      exact .pure _
  | cons name rest inductionHypothesis =>
      exact .bind (getVariable name) fun _ => .bind inductionHypothesis fun _ => .pure _

/-- Variables are assigned one after the other. -/
theorem setVariables
    {mode : Mode}
    (notFresh : mode ≠ .fresh)
    (pairs : List (Text × Text)) :
    Assembled realm fun run => Eval.setVariables run mode pairs := by
  induction pairs with
  | nil =>
      exact .pure _
  | cons pair rest inductionHypothesis =>
      exact .bind (.assign _ _ notFresh) fun _ => inductionHypothesis

/-- Code runs in a frame of its own, between reading what goes in and assigning what comes out. -/
theorem isolatedEvaluate
    (code : Text)
    (imports exports : List Text) :
    Assembled realm fun run => Eval.isolatedEvaluate run code imports exports :=
  .bind (getVariables imports) fun _ =>
    .bind
      (.inOwnFrame .isolated _
        (.bind (.nested ..) fun _ => .bind (getVariables exports) fun _ => .pure _))
      fun _ => .bind (setVariables (by simp) _) fun _ => .pure _

/-- What the value of a jail comes to outside of it. -/
def jailValue (evaluated : Evaluated) : Eval σ Text :=
  match evaluated.failure.bind Failure.fatal? with
  | some error => Eval.raise (.nestedTooDeep error) >>= fun _ => Pure.pure []
  | none => Pure.pure evaluated.value

/--
Code runs in a jail, and a fatal error from there is raised.  The record of the jail leaves the
interpreter alone, so the jail is made for the same one.
-/
theorem jailEvaluate
    (allowed : realm.allowed .jailEvaluate)
    (code : Text)
    (clean : Bool) :
    Assembled realm fun run => Eval.jailEvaluate run code clean := by
  have logsFirst : ∀ run : Run σ,
      Eval.jailEvaluate run code clean =
        Eval.log "jail created" [("clean", .flag clean)] >>= fun _ =>
          Eval.inJail run clean code >>= jailValue := by
    intro run
    funext machine
    rfl
  simp only [logsFirst]
  refine .bind (log ..) fun _ => .bind (.inJail clean code allowed) fun evaluated => ?_
  simp only [jailValue]
  split
  · exact .bind (raise _) fun _ => .pure _
  · exact .pure _

/-! ## Variable commands -/

/-- Each value of a list of pairs is assigned to the name before it; a last name is read. -/
theorem setPairs
    {mode : Mode}
    (notFresh : mode ≠ .fresh) :
    ∀ (arguments : List Text) (held : Text),
      Assembled realm fun run => Command.setPairs run mode arguments held
  | [], _ => .pure _
  | [name], _ => .bind (getVariable name) fun _ => .pure _
  | name :: value :: rest, _ =>
      .bind (.assign name value notFresh) fun _ => setPairs notFresh rest _

/-- The command that assigns only chooses the frame for its pairs. -/
theorem setCommand
    (arguments : List Text) :
    Assembled realm fun run => Command.setVariable run arguments := by
  cases arguments with
  | nil =>
      exact .pure _
  | cons first rest =>
      simp only [Command.setVariable]
      split
      · exact setPairs (by simp) ..
      · exact setPairs (by simp) ..

/-- New variables are defined one after the other. -/
theorem declareLocal
    (allowed : realm.allowed .declareLocal)
    (names : List Text) :
    Assembled realm fun run => Command.declareLocal run names := by
  induction names with
  | nil =>
      exact .pure _
  | cons name rest inductionHypothesis =>
      have declaresFirst : ∀ run : Run σ,
          Command.declareLocal run (name :: rest) =
            Eval.declare run name >>= fun _ => Command.declareLocal run rest := by
        intro run
        simp only [Command.declareLocal, Eval.declare, bind_assoc]
        refine congrArg _ (funext fun known => ?_)
        cases known with
        | true =>
            rfl
        | false =>
            simp
      simp only [declaresFirst]
      exact .bind (.declare name allowed) fun _ => inductionHypothesis

/-- A watch is set on one variable after the other. -/
theorem watchAll
    (allowed : realm.allowed .watch)
    (code : Text)
    (names : List Text) :
    Assembled realm fun _ => Command.watchAll code names := by
  induction names with
  | nil =>
      exact .pure _
  | cons name rest inductionHypothesis =>
      simp only [Command.watchAll]
      split
      · exact .bind (.watch name code allowed) fun _ => inductionHypothesis
      · exact inductionHypothesis

/-- The code of a watch stands behind the names. -/
theorem watchCommand
    (allowed : realm.allowed .watch)
    (arguments : List Text) :
    Assembled realm fun _ => Command.watch arguments := by
  simp only [Command.watch]
  split
  · split
    · exact .pure _
    · exact .bind (watchAll allowed ..) fun _ => .pure _
  · exact .pure _

/-- Counting reads a variable and assigns the sum. -/
theorem adjust
    (decrease : Bool)
    (arguments : List Text) :
    Assembled realm fun run => Command.adjust run decrease arguments := by
  cases arguments with
  | nil =>
      exact .pure _
  | cons name rest =>
      exact .bind (getVariable name) fun _ => .bind (.assign _ _ (by simp)) fun _ => .pure _

/-! ## List commands -/

/-- Counting elements reads a list. -/
theorem count
    (arguments : List Text) :
    Assembled realm fun run => Command.count run arguments := by
  cases arguments with
  | nil =>
      exact .pure _
  | cons list rest =>
      exact .bind (readList list) fun _ => .pure _

/-- Looking up an element reads a list. -/
theorem index
    (arguments : List Text) :
    Assembled realm fun run => Command.index run arguments := by
  simp only [Command.index]
  split
  · refine .bind (readList _) fun items => ?_
    split <;> exact .pure _
  · exact .pure _

/-- Looking for an element reads a list. -/
theorem indexOf
    (arguments : List Text) :
    Assembled realm fun run => Command.indexOf run arguments := by
  simp only [Command.indexOf]
  split
  · refine .bind (readList _) fun items => ?_
    split <;> exact .pure _
  · exact .pure _

/-- Appending reads a variable as a list and assigns the longer list. -/
theorem appendTo
    {mode : Mode}
    (notFresh : mode ≠ .fresh)
    (arguments : List Text) :
    Assembled realm fun run => Command.appendTo run mode arguments := by
  simp only [Command.appendTo]
  split
  · exact .bind (getVariable _) fun _ => .bind (readList _) fun _ =>
      .bind (.assign _ _ notFresh) fun _ => .pure _
  · exact .pure _

/-- A word in front directs what is appended to a global variable. -/
theorem append
    (arguments : List Text) :
    Assembled realm fun run => Command.append run arguments := by
  cases arguments with
  | nil =>
      exact .pure _
  | cons first rest =>
      simp only [Command.append]
      split
      · exact appendTo (by simp) _
      · exact appendTo (by simp) _

/-- A stretch of elements is read from a list. -/
theorem slice
    (arguments : List Text) :
    Assembled realm fun run => Command.slice run arguments := by
  simp only [Command.slice]
  split
  · exact .bind (readList _) fun _ => .pure _
  · exact .pure _

/-- For each element a variable is assigned and an expression is evaluated. -/
theorem filterItems
    (name condition : Text)
    (items : List Text) :
    ∀ kept : List Text,
      Assembled realm fun run => Command.filterItems run name condition items kept := by
  induction items with
  | nil =>
      intro kept
      exact .pure _
  | cons item rest inductionHypothesis =>
      intro kept
      refine .bind (.assign _ _ (by simp)) fun _ => .bind (expression condition) fun value => ?_
      refine .consult _ (fun _ _ _ => rfl) fun _ _ => ?_
      split
      · exact .pure _
      · refine ifStopping fun stopping => ?_
        split
        · exact .pure _
        · exact inductionHypothesis _

/-- Filtering reads a list and then goes through its elements. -/
theorem filter
    (arguments : List Text) :
    Assembled realm fun run => Command.filter run arguments := by
  simp only [Command.filter]
  split
  · exact .bind (readList _) fun _ => .bind (filterItems ..) fun _ => .pure _
  · exact .pure _

/-- Elements are assigned to the names that are given for them. -/
theorem mapNames
    (arguments : List Text) :
    Assembled realm fun run => Command.mapNames run arguments := by
  simp only [Command.mapNames]
  split
  · exact .bind (readList _) fun _ => .bind (setVariables (by simp) _) fun _ => .pure _
  · exact .pure _

/-- One list is read after the other. -/
theorem concat
    (lists : List Text) :
    ∀ done : Text, Assembled realm fun run => Command.concat run lists done := by
  induction lists with
  | nil =>
      intro done
      exact .pure _
  | cons list rest inductionHypothesis =>
      intro done
      exact .bind (readList list) fun _ => inductionHypothesis _

/-! ## Control flow -/

/-- A condition is an expression, and what it comes to only counts if it has not failed. -/
theorem condition
    (code : Text)
    (negated : Bool) :
    Assembled realm fun run => Command.condition run code negated := by
  refine .bind (expression code) fun _ => .consult _ (fun _ _ _ => rfl) fun _ _ => ?_
  split <;> exact .pure _

/-- Of two pieces of code the one that the condition chooses is run. -/
theorem branch
    (negated : Bool)
    (arguments : List Text) :
    Assembled realm fun run => Command.branch run negated arguments := by
  simp only [Command.branch]
  split
  case h_1 test body rest =>
    refine .bind (condition test negated) fun truth => ?_
    split
    · exact .pure _
    · exact .bind (.nested ..) fun _ => .pure _
    · split
      · exact .bind (.nested ..) fun _ => .pure _
      · exact .pure _
  case h_2 =>
    exact .pure _

/-- A check for an interruption before what follows. -/
theorem unlessInterrupted
    {stopped goOn : Run σ → Eval σ β}
    (stoppedAssembled : Assembled realm stopped)
    (goOnAssembled : Assembled realm goOn) :
    Assembled realm fun run => Command.isInterrupted >>= fun interrupted =>
      if interrupted then stopped run else goOn run := by
  refine .bind (.consult _ (fun _ _ _ => rfl) fun _ _ => ?_) fun interrupted => ?_
  · exact ifStopping fun _ => .pure _
  · split
    · exact stoppedAssembled
    · exact goOnAssembled

/-- Each round checks the condition, runs the body, and looks whether to go on. -/
theorem whileRounds
    (allowed : realm.allowed .whileLoop)
    (test body : Text)
    (negated : Bool)
    (rounds : Nat) :
    ∀ last : Text,
      Assembled realm fun run => Command.whileRounds run test body negated rounds last := by
  induction rounds with
  | zero =>
      intro last
      exact .halt .exhausted (by simp) fun _ => .inl allowed
  | succ rounds inductionHypothesis =>
      intro last
      refine unlessInterrupted (.pure _) (.bind (condition test negated) fun truth => ?_)
      split
      · exact .bind (.nested ..) fun _ => inductionHypothesis _
      · exact .pure _

/-- A loop has as many rounds as there are at hand. -/
theorem whileLoop
    (allowed : realm.allowed .whileLoop)
    (rounds : Nat)
    (arguments : List Text) :
    Assembled realm fun run => Command.whileLoop run rounds arguments := by
  simp only [Command.whileLoop]
  split
  · exact .bind (whileRounds allowed ..) fun _ => .pure _
  · exact .pure _

/-- Each round checks the condition, runs the body, looks whether to go on, and runs the step. -/
theorem forRounds
    (allowed : realm.allowed .forLoop)
    (test step body : Text)
    (rounds : Nat) :
    ∀ last : Text,
      Assembled realm fun run => Command.forRounds run test step body rounds last := by
  induction rounds with
  | zero =>
      intro last
      exact .halt .exhausted (by simp) fun _ => .inr allowed
  | succ rounds inductionHypothesis =>
      intro last
      refine unlessInterrupted (.pure _) (.bind (condition test false) fun truth => ?_)
      split
      · refine .bind (.nested ..) fun value => unlessInterrupted (.pure _) ?_
        exact .bind (.nested ..) fun _ => inductionHypothesis value
      · exact .pure _

/-- A counted loop runs its start and then its rounds. -/
theorem forLoop
    (allowed : realm.allowed .forLoop)
    (rounds : Nat)
    (arguments : List Text) :
    Assembled realm fun run => Command.forLoop run rounds arguments := by
  simp only [Command.forLoop]
  split
  · exact .bind (.nested ..) fun _ => .bind (forRounds allowed ..) fun _ => .pure _
  · exact .pure _

/-- Each round assigns an element, runs the body, and looks whether to go on. -/
theorem eachItem
    (name body : Text)
    (items : List Text) :
    ∀ results : List Text,
      Assembled realm fun run => Command.eachItem run name body items results := by
  induction items with
  | nil =>
      intro results
      exact .pure _
  | cons item rest inductionHypothesis =>
      intro results
      exact .bind (.assign _ _ (by simp)) fun _ => .bind (.nested ..) fun _ =>
        unlessInterrupted (.pure _) (inductionHypothesis _)

/-- A loop over a list reads the list and then goes through its elements. -/
theorem forEach
    (arguments : List Text) :
    Assembled realm fun run => Command.forEach run arguments := by
  simp only [Command.forEach]
  split
  · exact .bind (readList _) fun _ => .bind (eachItem ..) fun _ => .pure _
  · exact .pure _

/-- The command `try` catches the errors of its first argument and runs the second one for them. -/
theorem attempt_eq
    (run : Run σ)
    (body : Text)
    (rest : List Text) :
    Command.attempt run (body :: rest) =
      Eval.catching run body (Pure.pure (.value [])) (fun value => Pure.pure (.value value))
        (rest.head?.elim (Pure.pure (.value [])) fun handler =>
          run handler false >>= fun value => Pure.pure (.value value)) := by
  refine congrArg (Eval.hasError >>= ·) (funext fun before => ?_)
  cases before with
  | true =>
      rfl
  | false =>
      refine congrArg (run body false >>= ·) (funext fun value => ?_)
      refine congrArg (Eval.hasError >>= ·) (funext fun failed => ?_)
      cases failed <;> cases rest <;> rfl

/-- Trying runs code, and other code if that failed, with the error dropped in between. -/
theorem attempt
    (allowed : realm.allowed .attempt)
    (arguments : List Text) :
    Assembled realm fun run => Command.attempt run arguments := by
  cases arguments with
  | nil =>
      exact .pure _
  | cons body rest =>
      simp only [attempt_eq]
      refine .catching body allowed (.pure _) (fun _ => .pure _) ?_
      cases rest with
      | nil =>
          exact .pure _
      | cons handler _ =>
          exact .bind (.nested ..) fun _ => .pure _

/-- Leaving tells the host. -/
theorem exit
    (arguments : List Text) :
    Assembled realm fun _ => Command.exit arguments := by
  refine look (fun _ _ _ => rfl) fun interpreter held => ?_
  split
  case h_1 handle isHandle =>
    exact .bind (touch (.callback held (.exit arguments.head? isHandle))) fun _ => .pure _
  case h_2 =>
    exact .pure _

/-- A result is noted in the current frame. -/
theorem setResult
    (arguments : List Text) :
    Assembled realm fun _ => Command.setResult arguments := by
  cases arguments with
  | nil =>
      refine .bind (inspect _ fun interpreter held => ?_) fun _ => .pure _
      rw [Interpreter.currentFrame_veiled (realm.current held)]
  | cons value rest =>
      exact .bind (.step (.provide value)) fun _ => .pure _

/-! ## Commands that run code -/

/-- Code that is given as words is joined first. -/
theorem joined
    {evaluate : Run σ → Text → Eval σ Text}
    (assembled : ∀ code, Assembled realm fun run => evaluate run code)
    (arguments : List Text) :
    Assembled realm fun run => Command.joined (evaluate run) arguments := by
  simp only [Command.joined]
  split
  · exact .pure _
  · exact .bind (assembled _) fun _ => .pure _

/-- The names that go in and come out are given as lists. -/
theorem isolated
    (arguments : List Text) :
    Assembled realm fun run => Command.isolated run arguments := by
  simp only [Command.isolated]
  split
  · exact .pure _
  · exact .bind (isolatedEvaluate ..) fun _ => .pure _
  · exact .bind (readList _) fun _ => .bind (isolatedEvaluate ..) fun _ => .pure _
  · exact .bind (readList _) fun _ => .bind (readList _) fun _ =>
      .bind (isolatedEvaluate ..) fun _ => .pure _

/-- A word tells whether the jail is clean. -/
theorem jailed
    (allowed : realm.allowed .jailEvaluate)
    (arguments : List Text) :
    Assembled realm fun run => Command.jailed run arguments := by
  simp only [Command.jailed]
  split
  · exact .pure _
  · exact .bind (jailEvaluate allowed ..) fun _ => .pure _
  · exact .bind (jailEvaluate allowed ..) fun _ => .pure _

/-- The argument is read as words and joined. -/
theorem substitute
    (arguments : List Text) :
    Assembled realm fun run => Command.substitute run arguments := by
  cases arguments with
  | nil =>
      exact .pure _
  | cons text rest =>
      exact .bind (readJoined text) fun _ => .pure _

/-- The arguments are joined to an expression. -/
theorem arithmetic
    (arguments : List Text) :
    Assembled realm fun run => Command.arithmetic run arguments := by
  simp only [Command.arithmetic]
  split
  · exact .pure _
  · exact .bind (expression _) fun _ => .pure _

/-! ## Output and files -/

/-- Writing is up to the host or to the world. -/
theorem write
    (text : Text) :
    Assembled realm fun _ => Eval.write text := by
  refine look (fun _ _ _ => rfl) fun interpreter held => ?_
  split
  case h_1 handle isHandle =>
    exact touch (.callback held (.write text isHandle))
  case h_2 =>
    exact touch (.write text)

/-- Reading a file is up to the host or to the files. -/
theorem readText
    (name : Text) :
    Assembled realm fun _ => Eval.readText name := by
  refine look (fun _ _ _ => rfl) fun interpreter held => ?_
  split
  case h_1 handle isHandle =>
    exact .ask (.callback held (.read name isHandle))
  case h_2 =>
    exact .ask (.read name)

/-- Reading code is up to the host, or it is reading a file. -/
theorem readSource
    (name : Text) :
    Assembled realm fun _ => Eval.readSource name := by
  refine look (fun _ _ _ => rfl) fun interpreter held => ?_
  split
  case h_1 handle isHandle =>
    exact .ask (.callback held (.source name isHandle))
  case h_2 =>
    exact readText name

/-- Storing a file is up to the host or to the files. -/
theorem storeText
    (name text : Text) :
    Assembled realm fun _ => Eval.storeText name text := by
  refine look (fun _ _ _ => rfl) fun interpreter held => ?_
  split
  case h_1 handle isHandle =>
    exact .ask (.callback held (.store name text isHandle))
  case h_2 =>
    exact .ask (.store name text)

/-- Reading that fails is put on record. -/
theorem readCommand
    (arguments : List Text) :
    Assembled realm fun _ => Command.read arguments := by
  cases arguments with
  | nil =>
      exact .pure _
  | cons name rest =>
      refine .bind (readText name) fun read => ?_
      split
      · exact .pure _
      · exact .bind (log ..) fun _ => .pure _

/-- Storing that fails is put on record. -/
theorem storeCommand
    (arguments : List Text) :
    Assembled realm fun _ => Command.store arguments := by
  simp only [Command.store]
  split
  · refine .bind (storeText ..) fun stored => ?_
    split
    · exact .pure _
    · exact .bind (log ..) fun _ => .pure _
  · exact .pure _

/-- Code that could be read is run. -/
theorem source
    (arguments : List Text) :
    Assembled realm fun run => Command.source run arguments := by
  cases arguments with
  | nil =>
      exact .pure _
  | cons name rest =>
      refine .bind (readSource name) fun read => ?_
      split
      · exact .bind (.nested ..) fun _ => .pure _
      · exact .bind (log ..) fun _ => .pure _

/-- A random number comes from the world. -/
theorem random
    (allowed : realm.allowed .random) :
    Assembled realm fun _ => Command.random :=
  .bind (.ask (.random allowed)) fun _ => .pure _

/-! ## The interpreter itself -/

/-- What is asked about the interpreter is answered by looking at it. -/
theorem reflect
    (arguments : List Text) :
    Assembled realm fun _ => Command.reflect arguments := by
  simp only [Command.reflect]
  split
  · exact .pure _
  · split
    · exact .pure _
    · refine look (fun run interpreter held => ?_) fun interpreter _ => ?_
      · simp only [Interpreter.answer_veiled realm.root (realm.current held)]
      · split
        · exact .bind (.step (.setDollar _)) fun _ => .pure _
        · exact .pure _

/-- A script function is put into the tables. -/
theorem define
    (name : Text)
    (parameters : List Text)
    (body : Text) :
    Assembled realm fun _ => Command.define name parameters body :=
  .bind (.step (.define name parameters body)) fun _ => .pure _

/-- A name that nothing goes by is found by looking at the tables. -/
theorem unusedName
    (part : Text) :
    Assembled realm fun _ => Eval.inspect fun interpreter => interpreter.unusedName part :=
  inspect _ fun _ held => Interpreter.unusedName_veiled realm.root (realm.current held) part

/-- Defining a function reads its parameters as a list, and an unnamed one looks for a name. -/
theorem defineFunction
    (arguments : List Text) :
    Assembled realm fun run => Command.defineFunction run arguments := by
  simp only [Command.defineFunction]
  split
  · exact .pure _
  · exact .bind (unusedName _) fun _ => define ..
  · exact .bind (unusedName _) fun _ => .bind (readList _) fun _ => define ..
  · exact .bind (readList _) fun _ => define ..

/-- Renaming a command that exists changes the interpreter; there is no other to rename. -/
theorem rename_eq
    (old new : Text)
    (rest : List Text) :
    Command.rename (σ := σ) (old :: new :: rest) = interpreter >>= fun interpreter =>
      (interpreter.commands.get? old).elim
        (Pure.pure (.failed (.unknownFunction old)))
        fun _ =>
          (change fun interpreter =>
            (interpreter.rename old new).toOption.getD interpreter) >>= fun _ =>
          Pure.pure (.value old) := by
  funext machine
  simp only [Command.rename, interpreter_bind_apply]
  cases known : machine.interpreter.commands.get? old with
  | none =>
      simp [Interpreter.rename, known]
  | some id =>
      obtain ⟨renamed, moved⟩ :
          ∃ renamed, machine.interpreter.rename old new = .ok renamed := by
        simp only [Interpreter.rename, known]
        split <;> exact ⟨_, rfl⟩
      simp [moved, Except.toOption, -bind_pure_comp]

/-- Renaming looks at the tables and changes them, or raises an error. -/
theorem rename
    (arguments : List Text) :
    Assembled realm fun _ => Command.rename arguments := by
  cases arguments with
  | nil =>
      exact .pure _
  | cons old rest =>
      cases rest with
      | nil =>
          exact .pure _
      | cons new rest =>
          rw [rename_eq]
          refine look (fun _ _ _ => rfl) fun interpreter _ => ?_
          cases interpreter.commands.get? old with
          | none =>
              exact .pure _
          | some id =>
              exact .bind (.step (.rename old new)) fun _ => .pure _

/-- The catcher is looked up or exchanged. -/
theorem catcher
    (arguments : List Text) :
    Assembled realm fun _ => Command.catcher arguments := by
  cases arguments with
  | nil =>
      exact .bind (inspect _ fun _ _ => rfl) fun _ => .pure _
  | cons code rest =>
      exact .bind (.step (.setCatcher code)) fun _ => .pure _

/-! ## Calling a command -/

/-- Every built-in command is assembled, if it is allowed. -/
theorem callBuiltin
    (rounds : Nat)
    {command : Builtin}
    (allowed : realm.allowed command)
    (arguments : List Text) :
    Assembled realm fun run => Eval.callBuiltin run rounds command arguments := by
  cases command with
  | reflect => exact reflect arguments
  | defineFunction => exact defineFunction arguments
  | rename => exact rename arguments
  | unusedName => exact .bind (unusedName _) fun _ => .pure _
  | setVariable => exact setCommand arguments
  | declareLocal => exact declareLocal allowed arguments
  | evaluate => exact joined (fun _ => .nested ..) arguments
  | upEvaluate => exact joined (.heading .up · allowed) arguments
  | downEvaluate => exact joined (.heading .down · allowed) arguments
  | topEvaluate => exact joined (.heading .top · allowed) arguments
  | isolatedEvaluate => exact isolated arguments
  | jailEvaluate => exact jailed allowed arguments
  | returnValue => exact .bind (.step (.finish _)) fun _ => .pure _
  | setResult => exact setResult arguments
  | catcher => exact catcher arguments
  | watch => exact watchCommand allowed arguments
  | expression => exact arithmetic arguments
  | increment => exact adjust false arguments
  | decrement => exact adjust true arguments
  | conditional => exact branch ..
  | whileLoop => exact whileLoop allowed rounds arguments
  | forLoop => exact forLoop allowed rounds arguments
  | forEach => exact forEach arguments
  | attempt => exact attempt allowed arguments
  | raise => exact .bind (raise _) fun _ => .pure _
  | exit => exact exit arguments
  | print => exact .bind (write _) fun _ => .pure _
  | write => exact .bind (write _) fun _ => .pure _
  | read => exact readCommand arguments
  | store => exact storeCommand arguments
  | source => exact source arguments
  | count => exact count arguments
  | index => exact index arguments
  | indexOf => exact indexOf arguments
  | append => exact append arguments
  | slice => exact slice arguments
  | filter => exact filter arguments
  | mapNames => exact mapNames arguments
  | concat => exact concat arguments []
  | substitute => exact substitute arguments
  | random => exact random allowed
  | _ => exact .pure _

/-- A reply is counted, and a failure is raised. -/
theorem settle
    (reply : Reply) :
    Assembled realm fun _ => Eval.settle reply := by
  cases reply with
  | value text =>
      exact .bind
        (.step (.count fun tally => { tally with successes := tally.successes + 1 }))
        fun _ => .pure _
  | badArguments =>
      exact .bind
        (.step (.count fun tally => { tally with argumentErrors := tally.argumentErrors + 1 }))
        fun _ => .pure _
  | failed reason =>
      exact .bind
        (.step (.count fun tally => { tally with commandErrors := tally.commandErrors + 1 }))
        fun _ => .bind (raise reason) fun _ => .pure _

/-- A script function runs its body in a new frame, behind its bindings. -/
theorem callScript
    (id : FunctionId)
    (name : Text)
    (parameters : List Text)
    (body : Text)
    (arguments : List Text) :
    Assembled realm fun run => Eval.callScript run id name parameters body arguments :=
  .bind (log ..) fun _ => .inOwnFrame (.function id) _ (.nested ..)

/-- A catcher runs in a new frame, unless too many are running. -/
theorem callCatcher
    (command : List Text) :
    Assembled realm fun run => Eval.callCatcher run command := by
  have asCatcher : ∀ run : Run σ,
      Eval.callCatcher run command = interpreter >>= fun interpreter =>
        if interpreter.limits.catchers ≤ interpreter.catchers then
          Eval.raise (.catcherLimit (command.headD [])) >>= fun _ => Pure.pure []
        else
          Eval.log "catcher invoked" [("name", .text (command.headD []))] >>= fun _ =>
            Eval.inCatcher <| Eval.inOwnFrame run (.catcher (command.headD []))
              [(restParameter, ListText.write command)] <|
                Eval.inspect Interpreter.catcher >>= fun code => run code true := by
    intro run
    funext machine
    simp only [Eval.callCatcher, interpreter_bind_apply, Eval.inOwnFrame, Eval.setVariables,
      bind_assoc, pure_bind]
    split <;> rfl
  simp only [asCatcher]
  refine look (fun _ _ _ => rfl) fun interpreter _ => ?_
  split
  · exact .bind (raise _) fun _ => .pure _
  · refine .bind (log ..) fun _ => .inCatcher (.inOwnFrame _ _ ?_)
    exact .consult _ (fun _ _ _ => rfl) fun _ _ => .nested ..

/-! ## Around commands -/

open Source (Cursor)

/-- To find the next command, separators are skipped. -/
theorem nextCommand
    (reader : Reader)
    (cursor : Cursor) :
    Assembled realm fun _ => Eval.nextCommand reader cursor :=
  .bind (skipBlanks ..) fun _ => skipBlanks ..

/-- Nesting too deeply is seen by counting the starts of evaluations. -/
theorem guardDepth :
    Assembled realm fun _ => Eval.guardDepth := by
  refine look (fun _ _ _ => rfl) fun interpreter _ => ?_
  split
  · exact .bind (log ..) fun _ => .halt _ (by simp) (by simp)
  · exact .pure _

/-- An error is reported to the host where the outermost evaluation ends. -/
theorem reportError :
    Assembled realm fun _ => Eval.reportError := by
  refine look (fun _ _ _ => rfl) fun interpreter held => ?_
  split
  case h_1 error handle _ _ isHandle =>
    exact touch (.callback held (.error error isHandle))
  case h_2 =>
    exact .pure _

/-- A pending result is taken out of the current frame. -/
theorem takeResult :
    Assembled realm fun _ => Eval.takeResult := by
  refine look (fun _ _ held => ?_) fun interpreter _ => ?_
  · rw [Interpreter.currentFrame_veiled (realm.current held)]
  · split
    · exact .pure _
    · exact .bind (.step .take) fun _ => .pure _

/-- What an evaluation clears at its start: the mark of its frame, and at the outermost an error. -/
theorem prepare
    (ownResult outermost : Bool)
    (drops : outermost = true → realm.drops) :
    Assembled realm fun _ => Eval.prepare ownResult outermost := by
  have resumes : Assembled realm fun _ =>
      if ownResult then
        change fun interpreter =>
          interpreter.updateCurrent fun frame => { frame with stopping := false }
      else Pure.pure () := by
    split
    · exact .step .resume
    · exact .pure _
  simp only [Eval.prepare]
  split
  case isTrue isOutermost =>
    exact .bind (.drop (drops isOutermost)) fun _ => resumes
  case isFalse =>
    exact resumes

/-- At the end a pending result takes the place of the value. -/
theorem settleValue
    (ownResult : Bool)
    (value : Text) :
    Assembled realm fun _ => Eval.settleValue ownResult value := by
  simp only [Eval.settleValue]
  split
  · exact .bind takeResult fun _ => .pure _
  · exact .pure _

/-! ## Scripts -/

/-- Whatever command a name means to an interpreter, calling it is assembled. -/
theorem callAs
    (rounds : Nat)
    (command : List Text)
    {interpreter : Interpreter σ}
    (free : interpreter.HostFree)
    (offers : ∀ {id title builtin}, interpreter.commands.get? (command.headD []) = some id →
      interpreter.function? id = some ⟨title, .builtin builtin⟩ → realm.allowed builtin) :
    Assembled realm fun run => Eval.callAs interpreter run rounds command := by
  simp only [Eval.callAs]
  split
  case h_1 id known =>
    split
    case h_1 isBuiltin =>
      exact .bind (callBuiltin rounds (offers known isBuiltin) _) settle
    case h_2 action isHost =>
      exact absurd rfl (free.of_get? known isHost action)
    case h_3 =>
      exact callScript ..
    case h_4 =>
      exact .pure _
  case h_2 =>
    split
    · exact .pure _
    · split
      · exact .bind (raise _) fun _ => .pure _
      · exact callCatcher command

/-- Behind a command the reader moves on to the next one, unless the frame is being left. -/
theorem goOn
    (reader : Reader)
    (cursor : Cursor)
    (value : Text) :
    Assembled realm fun _ => Eval.isStopping >>= fun stopping =>
      if stopping then Pure.pure (value, none)
      else Eval.nextCommand reader cursor >>= fun next => Pure.pure (value, some next) := by
  refine ifStopping fun stopping => ?_
  split
  · exact .pure _
  · exact .bind (nextCommand ..) fun _ => .pure _

variable {scope : Scope σ}

/-- Whatever command a name means, calling it is assembled. -/
theorem dispatch
    (rounds : Nat)
    (command : List Text) :
    Assembled scope.toRealm fun run => Eval.dispatch run rounds command := by
  simp only [dispatch_eq]
  exact look (fun _ _ _ => rfl) fun _ held =>
    callAs rounds command (scope.free held) (scope.offers held)

/-- A command is read, marked as the one that runs, and called. -/
theorem commandAt
    (rounds bound : Nat)
    (reader : Reader)
    (cursor : Cursor) :
    Assembled scope.toRealm fun run => Eval.commandAt run rounds bound reader cursor := by
  refine .bind (.step (.mark _)) fun _ => .bind cancellation fun cause => ?_
  cases cause with
  | some cause =>
      exact .bind (raise _) fun _ => .pure _
  | none =>
      refine .bind (words ..) fun read => ?_
      cases read with
      | none =>
          exact .pure _
      | some read =>
          refine .consult _ (fun _ _ _ => rfl) fun _ _ => ?_
          split
          · exact .pure _
          · split
            · exact .bind (.pure _) (goOn reader read.2)
            · exact .bind (dispatch ..) (goOn reader read.2)

/-- Commands are read and called one after the other. -/
theorem commands
    (rounds : Nat)
    (reader : Reader)
    (depth bound : Nat) :
    ∀ (cursor : Cursor) (last : Text),
      Assembled scope.toRealm fun run =>
        Eval.commands run rounds reader depth bound cursor last := by
  induction bound with
  | zero =>
      intro cursor last
      exact .pure _
  | succ bound inductionHypothesis =>
      intro cursor last
      refine .consult _ (fun _ _ _ => rfl) fun _ _ => ?_
      split
      · exact .pure _
      · refine .bind (commandAt ..) fun ran => ?_
        obtain ⟨value, next⟩ := ran
        cases next with
        | none =>
            exact .pure _
        | some next =>
            exact inductionHypothesis next value

/-- A script is its start, its commands, and what they leave. -/
theorem runCommands
    (rounds : Nat)
    (code : Text)
    (ownResult outermost : Bool)
    (drops : outermost = true → scope.drops) :
    Assembled scope.toRealm fun run => Eval.runCommands run rounds code ownResult outermost := by
  refine .bind guardDepth fun _ => .bind (prepare _ _ drops) fun _ => .bind ?_ fun value => ?_
  · exact .bind (skipBlanks ..) fun _ => commands ..
  · exact .bind reportError fun _ => .pure _

/-- Running a script as the innermost evaluation is assembled. -/
theorem scriptBody
    (rounds : Nat)
    (code : Text)
    (ownResult outermost : Bool)
    (drops : outermost = true → scope.drops) :
    Assembled scope.toRealm fun run => Eval.scriptBody run rounds code ownResult outermost := by
  simp only [scriptBody_eq]
  exact .bind (runCommands _ _ _ _ drops) fun value => settleValue ownResult value

end LittleScript.Eval.Assembled
