import LittleScript.Proofs.AssembledCommands
import LittleScript.Proofs.GoingDown
import LittleScript.Proofs.UniformReading

namespace LittleScript

/-!
# Commands are uniform

No built-in command looks at how deeply evaluations are nested, and only one looks at the frame from
which evaluation went up.  Where that frame differs at the two depths, the shallow evaluation is
barred from going down to it.
-/

variable {σ α β : Type}

namespace Interpreter

variable (interpreter : Interpreter σ) (active : List Nat) (down : Option FrameId)

/-- What a name is used for does not hang on the evaluations that are running. -/
theorem unusedFrom_shifted
    (part : Text)
    (bound : Nat) :
    ∀ number, ({ interpreter with active, down } : Interpreter σ).unusedFrom part bound number =
      interpreter.unusedFrom part bound number := by
  induction bound with
  | zero =>
      exact fun _ => rfl
  | succ bound inductionHypothesis =>
      intro number
      simp only [unusedFrom, inductionHypothesis]
      rfl

/-- The frame of a caller does not hang on the evaluations that are running. -/
theorem callerFrom_shifted
    (bound : Nat) :
    ∀ id, ({ interpreter with active, down } : Interpreter σ).callerFrom bound id =
      interpreter.callerFrom bound id := by
  induction bound with
  | zero =>
      exact fun _ => rfl
  | succ bound inductionHypothesis =>
      intro id
      simp only [callerFrom, inductionHypothesis]
      rfl

/-- The frames from one to the root do not hang on the evaluations that are running. -/
theorem ancestry_shifted
    (bound : Nat) :
    ∀ id, ({ interpreter with active, down } : Interpreter σ).ancestry bound id =
      interpreter.ancestry bound id := by
  induction bound with
  | zero =>
      exact fun _ => rfl
  | succ bound inductionHypothesis =>
      intro id
      simp only [ancestry, inductionHypothesis]
      rfl

open Command in
/-- Nothing that can be asked about an interpreter hangs on the evaluations that are running. -/
theorem answer_shifted
    (topic : Topic)
    (subject : Text) :
    topic.answer { interpreter with active, down } subject = topic.answer interpreter subject := by
  have sameCaller : ({ interpreter with active, down } : Interpreter σ).callerFrame =
      interpreter.callerFrame :=
    interpreter.callerFrom_shifted active down _ _
  cases topic with
  | code =>
      simp only [Topic.answer, runningCode, sameCaller]
      rfl
  | name =>
      simp only [Topic.answer, runningName, sameCaller]
      rfl
  | _ =>
      rfl

end Interpreter

namespace Eval.Uniform

variable {terms : Terms} {footing : Footing}

/-! ## Small steps of commands -/

/-- A change that leaves alone what is true of an interpreter throughout a comparison. -/
theorem change
    (update : Interpreter σ → Interpreter σ)
    (blind : ∀ interpreter active down,
      update { interpreter with active, down } = { update interpreter with active, down })
    (keeps : ∀ interpreter, Kept terms footing interpreter →
      Kept terms footing (update interpreter)) :
    Uniform terms footing fun _ => Eval.change update :=
  of_alike (.change update blind keeps)

/-- A change of the current frame. -/
theorem updateCurrent
    (update : Frame → Frame) :
    Uniform (σ := σ) terms footing fun _ =>
      Eval.change fun interpreter => interpreter.updateCurrent update :=
  change _ (fun _ _ _ => rfl) fun _ kept => ⟨kept.offers, kept.heeds, kept.placed⟩

/-- A change of the counts. -/
theorem count
    (update : Statistics → Statistics) :
    Uniform (σ := σ) terms footing fun _ =>
      Eval.change fun interpreter =>
        { interpreter with statistics := update interpreter.statistics } :=
  change _ (fun _ _ _ => rfl) fun _ kept => ⟨kept.offers, kept.heeds, kept.placed⟩

/-- Whether the code of a frame is being left is the same at both depths. -/
theorem ifStopping
    {next : Run σ → Bool → Eval σ β}
    (uniform : ∀ stopping, Uniform terms footing fun run => next run stopping) :
    Uniform terms footing fun run => Eval.isStopping >>= next run :=
  consult _ (fun _ _ _ => rfl) fun _ _ => uniform _

/-- Whether an error is pending is the same at both depths. -/
theorem ifFailed
    {next : Run σ → Bool → Eval σ β}
    (uniform : ∀ failed, Uniform terms footing fun run => next run failed) :
    Uniform terms footing fun run => Eval.hasError >>= next run :=
  consult _ (fun _ _ _ => rfl) fun _ _ => uniform _

/-! ## Variable commands -/

/-- Pairs of names and values are assigned alike. -/
theorem setPairs
    (mode : Mode) :
    ∀ (arguments : List Text) (held : Text),
      Uniform (σ := σ) terms footing fun run => Command.setPairs run mode arguments held
  | [], _ => .pure _
  | [name], _ => .bind (getVariable name) fun _ => .pure _
  | name :: value :: rest, _ => .bind (setVariable name value mode) fun _ => setPairs mode rest _

/-- The frame that a word chooses is the same at both depths. -/
theorem setCommand
    (arguments : List Text) :
    Uniform (σ := σ) terms footing fun run => Command.setVariable run arguments := by
  cases arguments with
  | nil =>
      exact .pure _
  | cons first rest =>
      simp only [Command.setVariable]
      split <;> exact setPairs ..

/-- New variables are defined in the same frame. -/
theorem declareLocal
    (names : List Text) :
    Uniform (σ := σ) terms footing fun run => Command.declareLocal run names := by
  induction names with
  | nil =>
      exact .pure _
  | cons name rest inductionHypothesis =>
      refine .consult _ (fun _ _ _ => rfl) fun _ _ => ?_
      split
      · exact .bind (setVariable ..) fun _ => inductionHypothesis
      · exact inductionHypothesis

/-- Watches are set on the same variables. -/
theorem watchAll
    (code : Text)
    (names : List Text) :
    Uniform (σ := σ) terms footing fun _ => Command.watchAll code names := by
  induction names with
  | nil =>
      exact .pure _
  | cons name rest inductionHypothesis =>
      simp only [Command.watchAll]
      split
      · exact .bind (watch name code) fun _ => inductionHypothesis
      · exact inductionHypothesis

/-- The code of a watch and its names are the same words. -/
theorem watchCommand
    (arguments : List Text) :
    Uniform (σ := σ) terms footing fun _ => Command.watch arguments := by
  simp only [Command.watch]
  split
  · split
    · exact .pure _
    · exact .bind (watchAll ..) fun _ => .pure _
  · exact .pure _

/-- The same number is read, and the same sum is assigned. -/
theorem adjust
    (decrease : Bool)
    (arguments : List Text) :
    Uniform (σ := σ) terms footing fun run => Command.adjust run decrease arguments := by
  cases arguments with
  | nil =>
      exact .pure _
  | cons name rest =>
      exact .bind (getVariable name) fun _ => .bind (setVariable ..) fun _ => .pure _

/-! ## List commands -/

/-- The same list is counted. -/
theorem countItems
    (arguments : List Text) :
    Uniform (σ := σ) terms footing fun run => Command.count run arguments := by
  cases arguments with
  | nil =>
      exact .pure _
  | cons list rest =>
      exact .bind (readList list) fun _ => .pure _

/-- The same list is looked up in. -/
theorem index
    (arguments : List Text) :
    Uniform (σ := σ) terms footing fun run => Command.index run arguments := by
  simp only [Command.index]
  split
  · refine .bind (readList _) fun items => ?_
    split <;> exact .pure _
  · exact .pure _

/-- The same list is searched. -/
theorem indexOf
    (arguments : List Text) :
    Uniform (σ := σ) terms footing fun run => Command.indexOf run arguments := by
  simp only [Command.indexOf]
  split
  · refine .bind (readList _) fun items => ?_
    split <;> exact .pure _
  · exact .pure _

/-- The same list is made longer. -/
theorem appendTo
    (mode : Mode)
    (arguments : List Text) :
    Uniform (σ := σ) terms footing fun run => Command.appendTo run mode arguments := by
  simp only [Command.appendTo]
  split
  · exact .bind (getVariable _) fun _ => .bind (readList _) fun _ =>
      .bind (setVariable ..) fun _ => .pure _
  · exact .pure _

/-- Where the longer list goes is the same. -/
theorem append
    (arguments : List Text) :
    Uniform (σ := σ) terms footing fun run => Command.append run arguments := by
  cases arguments with
  | nil =>
      exact .pure _
  | cons first rest =>
      simp only [Command.append]
      split <;> exact appendTo ..

/-- The same stretch is cut out. -/
theorem slice
    (arguments : List Text) :
    Uniform (σ := σ) terms footing fun run => Command.slice run arguments := by
  simp only [Command.slice]
  split
  · exact .bind (readList _) fun _ => .pure _
  · exact .pure _

/-- The same elements are kept. -/
theorem filterItems
    (name condition : Text)
    (items : List Text) :
    ∀ kept : List Text,
      Uniform (σ := σ) terms footing fun run =>
        Command.filterItems run name condition items kept := by
  induction items with
  | nil =>
      intro kept
      exact .pure _
  | cons item rest inductionHypothesis =>
      intro kept
      refine .bind (setVariable ..) fun _ => .bind (expression condition) fun value => ?_
      refine ifFailed fun failed => ?_
      split
      · exact .pure _
      · refine ifStopping fun stopping => ?_
        split
        · exact .pure _
        · exact inductionHypothesis _

/-- Filtering reads the same list. -/
theorem filter
    (arguments : List Text) :
    Uniform (σ := σ) terms footing fun run => Command.filter run arguments := by
  simp only [Command.filter]
  split
  · exact .bind (readList _) fun _ => .bind (filterItems ..) fun _ => .pure _
  · exact .pure _

/-- The same elements are assigned to the same names. -/
theorem mapNames
    (arguments : List Text) :
    Uniform (σ := σ) terms footing fun run => Command.mapNames run arguments := by
  simp only [Command.mapNames]
  split
  · exact .bind (readList _) fun _ => .bind (setVariables ..) fun _ => .pure _
  · exact .pure _

/-- The same lists are joined. -/
theorem concat
    (lists : List Text) :
    ∀ done : Text, Uniform (σ := σ) terms footing fun run => Command.concat run lists done := by
  induction lists with
  | nil =>
      intro done
      exact .pure _
  | cons list rest inductionHypothesis =>
      intro done
      exact .bind (readList list) fun _ => inductionHypothesis _

/-! ## Control flow -/

/-- A condition comes to the same. -/
theorem condition
    (code : Text)
    (negated : Bool) :
    Uniform (σ := σ) terms footing fun run => Command.condition run code negated := by
  refine .bind (expression code) fun _ => ifFailed fun failed => ?_
  split <;> exact .pure _

/-- The same branch is run. -/
theorem branch
    (negated : Bool)
    (arguments : List Text) :
    Uniform (σ := σ) terms footing fun run => Command.branch run negated arguments := by
  simp only [Command.branch]
  split
  case h_1 test body rest =>
    refine .bind (condition test negated) fun truth => ?_
    split
    · exact .pure _
    · exact .bind (.nested ..) fun _ => .pure _
    · split
      · exact .bind (.nested ..) fun _ => .pure _
      · exact .pure _
  case h_2 =>
    exact .pure _

/-- A check for an interruption before what follows. -/
theorem unlessInterrupted
    {stopped goOn : Run σ → Eval σ β}
    (stoppedUniform : Uniform terms footing stopped)
    (goOnUniform : Uniform terms footing goOn) :
    Uniform terms footing fun run => Command.isInterrupted >>= fun interrupted =>
      if interrupted then stopped run else goOn run := by
  refine .bind (ifFailed fun _ => ifStopping fun _ => .pure _) fun interrupted => ?_
  split
  · exact stoppedUniform
  · exact goOnUniform

/-- A loop has the same rounds, one after the other. -/
theorem whileRounds
    (test body : Text)
    (negated : Bool)
    (rounds : Nat) :
    ∀ last : Text,
      Uniform (σ := σ) terms footing fun run =>
        Command.whileRounds run test body negated rounds last := by
  induction rounds with
  | zero =>
      intro last
      exact of_alike (.stop .exhausted)
  | succ rounds inductionHypothesis =>
      intro last
      refine unlessInterrupted (.pure _) (.bind (condition test negated) fun truth => ?_)
      split
      · exact .bind (.nested ..) fun _ => inductionHypothesis _
      · exact .pure _

/-- A loop starts alike. -/
theorem whileLoop
    (rounds : Nat)
    (arguments : List Text) :
    Uniform (σ := σ) terms footing fun run => Command.whileLoop run rounds arguments := by
  simp only [Command.whileLoop]
  split
  · exact .bind (whileRounds ..) fun _ => .pure _
  · exact .pure _

/-- A counted loop has the same rounds, one after the other. -/
theorem forRounds
    (test step body : Text)
    (rounds : Nat) :
    ∀ last : Text,
      Uniform (σ := σ) terms footing fun run =>
        Command.forRounds run test step body rounds last := by
  induction rounds with
  | zero =>
      intro last
      exact of_alike (.stop .exhausted)
  | succ rounds inductionHypothesis =>
      intro last
      refine unlessInterrupted (.pure _) (.bind (condition test false) fun truth => ?_)
      split
      · refine .bind (.nested ..) fun value => unlessInterrupted (.pure _) ?_
        exact .bind (.nested ..) fun _ => inductionHypothesis value
      · exact .pure _

/-- A counted loop starts alike. -/
theorem forLoop
    (rounds : Nat)
    (arguments : List Text) :
    Uniform (σ := σ) terms footing fun run => Command.forLoop run rounds arguments := by
  simp only [Command.forLoop]
  split
  · exact .bind (.nested ..) fun _ => .bind (forRounds ..) fun _ => .pure _
  · exact .pure _

/-- A loop over elements has the same rounds, one after the other. -/
theorem eachItem
    (name body : Text)
    (items : List Text) :
    ∀ results : List Text,
      Uniform (σ := σ) terms footing fun run => Command.eachItem run name body items results := by
  induction items with
  | nil =>
      intro results
      exact .pure _
  | cons item rest inductionHypothesis =>
      intro results
      exact .bind (setVariable ..) fun _ => .bind (.nested ..) fun _ =>
        unlessInterrupted (.pure _) (inductionHypothesis _)

/-- A loop over a list reads the same list. -/
theorem forEach
    (arguments : List Text) :
    Uniform (σ := σ) terms footing fun run => Command.forEach run arguments := by
  simp only [Command.forEach]
  split
  · exact .bind (readList _) fun _ => .bind (eachItem ..) fun _ => .pure _
  · exact .pure _

/-- Code that is tried fails alike, and other code is then run alike. -/
theorem attempt
    (arguments : List Text) :
    Uniform (σ := σ) terms footing fun run => Command.attempt run arguments := by
  cases arguments with
  | nil =>
      exact .pure _
  | cons body rest =>
      refine ifFailed fun before => ?_
      split
      · exact .pure _
      · refine .bind (.nested ..) fun value => ifFailed fun failed => ?_
        split
        · exact .pure _
        · refine .bind (of_alike .clearError) fun _ => ?_
          split
          · exact .bind (.nested ..) fun _ => .pure _
          · exact .pure _

/-- The host is told the same. -/
theorem exit
    (arguments : List Text) :
    Uniform (σ := σ) terms footing fun _ => Command.exit arguments := by
  refine look (fun _ _ _ _ => rfl) fun interpreter kept => ?_
  split
  case h_1 handle isHandle =>
    exact .bind (of_alike (.touch (kept.answers (.exit arguments.head? isHandle)))) fun _ =>
      .pure _
  case h_2 =>
    exact .bind (.pure _) fun _ => .pure _

/-- The same result is noted in the same frame. -/
theorem setResult
    (arguments : List Text) :
    Uniform (σ := σ) terms footing fun _ => Command.setResult arguments := by
  cases arguments with
  | nil =>
      exact .bind (inspect _ fun _ _ _ => rfl) fun _ => .pure _
  | cons value rest =>
      exact .bind (updateCurrent _) fun _ => .pure _

/-! ## Commands that run code -/

/-- The same code is made of the words. -/
theorem joined
    {evaluate : Run σ → Text → Eval σ Text}
    (uniform : ∀ code, Uniform terms footing fun run => evaluate run code)
    (arguments : List Text) :
    Uniform terms footing fun run => Command.joined (evaluate run) arguments := by
  simp only [Command.joined]
  split
  · exact .pure _
  · exact .bind (uniform _) fun _ => .pure _

/-- The same names go in and come out. -/
theorem isolated
    (arguments : List Text) :
    Uniform (σ := σ) terms footing fun run => Command.isolated run arguments := by
  simp only [Command.isolated]
  split
  · exact .pure _
  · exact .bind (isolatedEvaluate ..) fun _ => .pure _
  · exact .bind (readList _) fun _ => .bind (isolatedEvaluate ..) fun _ => .pure _
  · exact .bind (readList _) fun _ => .bind (readList _) fun _ =>
      .bind (isolatedEvaluate ..) fun _ => .pure _

/-- The jail is clean at both depths or at neither. -/
theorem jailed
    (arguments : List Text) :
    Uniform (σ := σ) terms footing fun run => Command.jailed run arguments := by
  simp only [Command.jailed]
  split
  · exact .pure _
  · exact .bind (jailEvaluate ..) fun _ => .pure _
  · exact .bind (jailEvaluate ..) fun _ => .pure _

/-- The argument is substituted alike. -/
theorem substitute
    (arguments : List Text) :
    Uniform (σ := σ) terms footing fun run => Command.substitute run arguments := by
  cases arguments with
  | nil =>
      exact .pure _
  | cons text rest =>
      exact .bind (readJoined text) fun _ => .pure _

/-- The same expression is evaluated. -/
theorem arithmetic
    (arguments : List Text) :
    Uniform (σ := σ) terms footing fun run => Command.arithmetic run arguments := by
  simp only [Command.arithmetic]
  split
  · exact .pure _
  · exact .bind (expression _) fun _ => .pure _

/-! ## Output and files -/

/-- What the world answers by itself does not hang on the records of the log. -/
theorem answered
    {answer : World σ → α × World σ}
    (blind : World.LogBlind answer) :
    Uniform terms footing fun _ => Eval.ask answer :=
  of_alike (.ask (.inr blind))

/-- The same is written, through the same callback. -/
theorem write
    (text : Text) :
    Uniform (σ := σ) terms footing fun _ => Eval.write text := by
  refine look (fun _ _ _ _ => rfl) fun interpreter kept => ?_
  split
  case h_1 handle isHandle =>
    exact of_alike (.touch (kept.answers (.write text isHandle)))
  case h_2 =>
    exact of_alike (.touch (.inr fun _ records => ⟨records, rfl⟩))

/-- The same text is read, through the same callback. -/
theorem readText
    (name : Text) :
    Uniform (σ := σ) terms footing fun _ => Eval.readText name := by
  refine look (fun _ _ _ _ => rfl) fun interpreter kept => ?_
  split
  case h_1 handle isHandle =>
    exact of_alike (.ask (kept.answers (.read name isHandle)))
  case h_2 =>
    refine answered fun world records => ⟨records, ?_⟩
    simp only
    split <;> rfl

/-- The same code is read, through the same callback. -/
theorem readSource
    (name : Text) :
    Uniform (σ := σ) terms footing fun _ => Eval.readSource name := by
  refine look (fun _ _ _ _ => rfl) fun interpreter kept => ?_
  split
  case h_1 handle isHandle =>
    exact of_alike (.ask (kept.answers (.source name isHandle)))
  case h_2 =>
    exact readText name

/-- The same text is stored, through the same callback. -/
theorem storeText
    (name text : Text) :
    Uniform (σ := σ) terms footing fun _ => Eval.storeText name text := by
  refine look (fun _ _ _ _ => rfl) fun interpreter kept => ?_
  split
  case h_1 handle isHandle =>
    exact of_alike (.ask (kept.answers (.store name text isHandle)))
  case h_2 =>
    refine answered fun world records => ⟨records, ?_⟩
    simp only
    split <;> rfl

/-- Reading fails alike. -/
theorem readCommand
    (arguments : List Text) :
    Uniform (σ := σ) terms footing fun _ => Command.read arguments := by
  cases arguments with
  | nil =>
      exact .pure _
  | cons name rest =>
      refine .bind (readText name) fun read => ?_
      split
      · exact .pure _
      · exact .bind (log ..) fun _ => .pure _

/-- Storing fails alike. -/
theorem storeCommand
    (arguments : List Text) :
    Uniform (σ := σ) terms footing fun _ => Command.store arguments := by
  simp only [Command.store]
  split
  · refine .bind (storeText ..) fun stored => ?_
    split
    · exact .pure _
    · exact .bind (log ..) fun _ => .pure _
  · exact .pure _

/-- The same code is run. -/
theorem source
    (arguments : List Text) :
    Uniform (σ := σ) terms footing fun run => Command.source run arguments := by
  cases arguments with
  | nil =>
      exact .pure _
  | cons name rest =>
      refine .bind (readSource name) fun read => ?_
      split
      · exact .bind (.nested ..) fun _ => .pure _
      · exact .bind (log ..) fun _ => .pure _

/-- The random number is the same. -/
theorem random :
    Uniform (σ := σ) terms footing fun _ => Command.random :=
  .bind (answered fun _ records => ⟨records, rfl⟩) fun _ => .pure _

/-! ## The interpreter itself -/

/-- The answers do not hang on how deeply evaluations are nested. -/
theorem reflect
    (arguments : List Text) :
    Uniform (σ := σ) terms footing fun _ => Command.reflect arguments := by
  simp only [Command.reflect]
  split
  · exact .pure _
  · split
    · exact .pure _
    · refine look (fun _ interpreter active down => ?_) fun interpreter _ => ?_
      · simp only [interpreter.answer_shifted active down]
      · split
        · exact .bind (change _ (fun _ _ _ => rfl) fun _ kept =>
            ⟨kept.offers, kept.heeds, kept.placed⟩) fun _ => .pure _
        · exact .bind (.pure _) fun _ => .pure _

/-- The same function is put into the tables. -/
theorem define
    (name : Text)
    (parameters : List Text)
    (body : Text) :
    Uniform (σ := σ) terms footing fun _ => Command.define name parameters body :=
  .bind (change _ (fun _ _ _ => rfl) fun _ kept =>
    ⟨kept.offers.define name trivial, kept.heeds, kept.placed⟩) fun _ => .pure _

/-- The same name is unused. -/
theorem unusedName
    (part : Text) :
    Uniform (σ := σ) terms footing fun _ =>
      Eval.inspect fun interpreter => interpreter.unusedName part :=
  inspect _ fun interpreter active down => interpreter.unusedFrom_shifted active down part _ 0

/-- The same function is defined, under the same name. -/
theorem defineFunction
    (arguments : List Text) :
    Uniform (σ := σ) terms footing fun run => Command.defineFunction run arguments := by
  simp only [Command.defineFunction]
  split
  · exact .pure _
  · exact .bind (unusedName _) fun _ => define ..
  · exact .bind (unusedName _) fun _ => .bind (readList _) fun _ => define ..
  · exact .bind (readList _) fun _ => define ..

/-- The same command is renamed, or the same error raised. -/
theorem rename
    (arguments : List Text) :
    Uniform (σ := σ) terms footing fun _ => Command.rename arguments := by
  cases arguments with
  | nil =>
      exact .pure _
  | cons old rest =>
      cases rest with
      | nil =>
          exact .pure _
      | cons new rest =>
          rw [Assembled.rename_eq]
          refine look (fun _ _ _ _ => rfl) fun interpreter _ => ?_
          cases interpreter.commands.get? old with
          | none =>
              exact .pure _
          | some id =>
              refine .bind (change _ (fun interpreter active down => ?_)
                fun interpreter kept => ?_) fun _ => .pure _
              · simp only [Interpreter.rename]
                split
                · rfl
                · split <;> rfl
              · cases moved : interpreter.rename old new with
                | error reason =>
                    exact kept
                | ok renamed =>
                    have offers := kept.offers.rename moved
                    obtain ⟨functions, commands, rfl⟩ := Interpreter.rename_eq moved
                    exact ⟨offers, kept.heeds, kept.placed⟩

/-- The same catcher is answered or set. -/
theorem catcher
    (arguments : List Text) :
    Uniform (σ := σ) terms footing fun _ => Command.catcher arguments := by
  cases arguments with
  | nil =>
      exact .bind (inspect _ fun _ _ _ => rfl) fun _ => .pure _
  | cons code rest =>
      exact .bind (change _ (fun _ _ _ => rfl) fun _ kept =>
        ⟨kept.offers, kept.heeds, kept.placed⟩) fun _ => .pure _

/-! ## Calling a command -/

/-- Every built-in command is uniform but the one that goes down. -/
theorem callBuiltin
    (rounds : Nat)
    {command : Builtin}
    (stays : command ≠ .downEvaluate)
    (arguments : List Text) :
    Uniform (σ := σ) terms footing fun run => Eval.callBuiltin run rounds command arguments := by
  cases command with
  | downEvaluate => exact absurd rfl stays
  | reflect => exact reflect arguments
  | defineFunction => exact defineFunction arguments
  | rename => exact rename arguments
  | unusedName => exact .bind (unusedName _) fun _ => .pure _
  | setVariable => exact setCommand arguments
  | declareLocal => exact declareLocal arguments
  | evaluate => exact joined (fun _ => .nested ..) arguments
  | upEvaluate => exact joined upEvaluate arguments
  | topEvaluate => exact joined topEvaluate arguments
  | isolatedEvaluate => exact isolated arguments
  | jailEvaluate => exact jailed arguments
  | returnValue => exact .bind (updateCurrent _) fun _ => .pure _
  | setResult => exact setResult arguments
  | catcher => exact catcher arguments
  | watch => exact watchCommand arguments
  | expression => exact arithmetic arguments
  | increment => exact adjust false arguments
  | decrement => exact adjust true arguments
  | conditional => exact branch ..
  | whileLoop => exact whileLoop rounds arguments
  | forLoop => exact forLoop rounds arguments
  | forEach => exact forEach arguments
  | attempt => exact attempt arguments
  | raise => exact .bind (raise _) fun _ => .pure _
  | exit => exact exit arguments
  | print => exact .bind (write _) fun _ => .pure _
  | write => exact .bind (write _) fun _ => .pure _
  | read => exact readCommand arguments
  | store => exact storeCommand arguments
  | source => exact source arguments
  | count => exact countItems arguments
  | index => exact index arguments
  | indexOf => exact indexOf arguments
  | append => exact append arguments
  | slice => exact slice arguments
  | filter => exact filter arguments
  | mapNames => exact mapNames arguments
  | concat => exact concat arguments []
  | substitute => exact substitute arguments
  | random => exact random
  | _ => exact .pure _

/-- A reply is counted and raised alike. -/
theorem settle
    (reply : Reply) :
    Uniform (σ := σ) terms footing fun _ => Eval.settle reply := by
  cases reply with
  | value text =>
      exact .bind (count fun tally => { tally with successes := tally.successes + 1 })
        fun _ => .pure _
  | badArguments =>
      exact .bind (count fun tally => { tally with argumentErrors := tally.argumentErrors + 1 })
        fun _ => .pure _
  | failed reason =>
      exact .bind (count fun tally => { tally with commandErrors := tally.commandErrors + 1 })
        fun _ => .bind (raise reason) fun _ => .pure _

/-- The same bindings are made for the same body. -/
theorem callScript
    (id : FunctionId)
    (name : Text)
    (parameters : List Text)
    (body : Text)
    (arguments : List Text) :
    Uniform (σ := σ) terms footing fun run =>
      Eval.callScript run id name parameters body arguments :=
  .bind (log ..) fun _ => .consult _ (fun _ _ _ => rfl) fun _ _ =>
    .inNewFrame _ (.bind (setVariables ..) fun _ => .nested ..)

/-- The same number of catchers is running. -/
theorem callCatcher
    (command : List Text) :
    Uniform (σ := σ) terms footing fun run => Eval.callCatcher run command := by
  refine look (fun _ _ _ _ => rfl) fun interpreter _ => ?_
  split
  · exact .bind (raise _) fun _ => .pure _
  · refine .bind (log ..) fun _ => .bind (change _ (fun _ _ _ => rfl) fun _ kept =>
      ⟨kept.offers, kept.heeds, kept.placed⟩) fun _ => ⟨fun shallow deep runs => ?_⟩
    have catching : Uniform (σ := σ) terms footing fun run =>
        Eval.inNewFrame
          { parent := some interpreter.current, catching := some (command.headD []) }
          (Eval.setVariable run restParameter (ListText.write command) .fresh >>= fun _ =>
            Eval.inspect Interpreter.catcher >>= fun code => run code true) :=
      .inNewFrame _ (.bind (setVariable ..) fun _ => .consult _ (fun _ _ _ => rfl) fun _ _ =>
        .nested ..)
    intro first second alike
    refine (catching.alike shallow deep runs first second alike).ensuring id fun _ _ ends => ?_
    exact ends.change (fun changed => { changed with catchers := interpreter.catchers })
      (fun _ _ _ => rfl) fun _ kept => ⟨kept.offers, kept.heeds, kept.placed⟩

end Eval.Uniform

end LittleScript
