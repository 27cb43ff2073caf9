import LittleScript.Proofs.ComposedVariables

namespace LittleScript

/-!
# What evaluation is assembled from

Some of what evaluation is composed of only ever happens together.  An assignment asks the host
before it stores a global variable, and runs the watch in the frame that holds the variable; a frame
is entered from where evaluation is, and a new frame starts with the arguments of what runs in it;
a jail is opened for the interpreter that evaluation is on.  `Assembled` says of an action that it
is put together from these larger parts, with what each of them may do to the world.
-/

variable {σ α β : Type}

/-- What evaluation does to the world by itself, without the host. -/
inductive World.Routine (world : World σ) : World σ → Prop where
  | same :
      world.Routine world
  | record (entry : LogEntry) :
      world.Routine (world.record entry)
  | write (text : Text) :
      world.Routine (world.write text)
  | store (files : FileSystem) :
      world.Routine { world with files }
  | draw (randomness : UInt64) :
      world.Routine { world with randomness }

/-- What a callback does to the world when it is called, other than about an assignment. -/
inductive Callbacks.Performs (callbacks : Callbacks σ) : (World σ → World σ) → Prop where
  | exit {handle : Option Text → World σ → World σ} (status : Option Text) :
      callbacks.exit = some handle →
      callbacks.Performs (handle status)
  | write {handle : Text → World σ → World σ} (text : Text) :
      callbacks.write = some handle →
      callbacks.Performs (handle text)
  | read {handle : Text → World σ → Except Text Text × World σ} (name : Text) :
      callbacks.read = some handle →
      callbacks.Performs fun world => (handle name world).2
  | store {handle : Text → Text → World σ → Except Text Unit × World σ} (name text : Text) :
      callbacks.store = some handle →
      callbacks.Performs fun world => (handle name text world).2
  | source {handle : Text → World σ → Except Text Text × World σ} (name : Text) :
      callbacks.source = some handle →
      callbacks.Performs fun world => (handle name world).2
  | error {handle : ScriptError → World σ → World σ} (error : ScriptError) :
      callbacks.error = some handle →
      callbacks.Performs (handle error)
  | getVariable {handle : Text → World σ → Option (Option Text) × World σ} (name : Text) :
      callbacks.getVariable = some handle →
      callbacks.Performs fun world => (handle name world).2

/-- What a callback is asked, other than about an assignment. -/
inductive Callbacks.Answers (callbacks : Callbacks σ) :
    {α : Type} → (World σ → α × World σ) → Prop where
  | exit {handle : Option Text → World σ → World σ} (status : Option Text) :
      callbacks.exit = some handle →
      callbacks.Answers fun world => ((), handle status world)
  | write {handle : Text → World σ → World σ} (text : Text) :
      callbacks.write = some handle →
      callbacks.Answers fun world => ((), handle text world)
  | read {handle : Text → World σ → Except Text Text × World σ} (name : Text) :
      callbacks.read = some handle →
      callbacks.Answers (handle name)
  | store {handle : Text → Text → World σ → Except Text Unit × World σ} (name text : Text) :
      callbacks.store = some handle →
      callbacks.Answers (handle name text)
  | source {handle : Text → World σ → Except Text Text × World σ} (name : Text) :
      callbacks.source = some handle →
      callbacks.Answers (handle name)
  | error {handle : ScriptError → World σ → World σ} (error : ScriptError) :
      callbacks.error = some handle →
      callbacks.Answers fun world => ((), handle error world)
  | getVariable {handle : Text → World σ → Option (Option Text) × World σ} (name : Text) :
      callbacks.getVariable = some handle →
      callbacks.Answers (handle name)

/-- Asking a callback performs on the world what the callback does. -/
theorem Callbacks.Answers.performs
    {callbacks : Callbacks σ}
    {answer : World σ → α × World σ}
    (answers : callbacks.Answers answer) :
    callbacks.Performs fun world => (answer world).2 := by
  cases answers with
  | exit status handled => exact .exit status handled
  | write text handled => exact .write text handled
  | read name handled => exact .read name handled
  | store name text handled => exact .store name text handled
  | source name handled => exact .source name handled
  | error error handled => exact .error error handled
  | getVariable name handled => exact .getVariable name handled

/-- Of the callbacks of its parent, a jail has the one for output. -/
theorem Callbacks.Answers.of_jail
    {callbacks : Callbacks σ}
    {answer : World σ → α × World σ}
    (answers : ({ write := callbacks.write } : Callbacks σ).Answers answer) :
    callbacks.Answers answer := by
  cases answers with
  | write text handled => exact .write text handled
  | exit _ handled => cases handled
  | read _ handled => cases handled
  | store _ _ handled => cases handled
  | source _ handled => cases handled
  | error _ handled => cases handled
  | getVariable _ handled => cases handled

namespace Eval

/-- What evaluation asks of the world: to note or give something, or what a callback answers. -/
inductive Realm.Asks (realm : Realm σ) : {α : Type} → (World σ → α × World σ) → Prop where
  | record (entry : LogEntry) :
      realm.Asks fun world => ((), world.record entry)
  | write (text : Text) :
      realm.Asks fun world => ((), world.write text)
  | read (name : Text) :
      realm.Asks (α := Except Text Text) fun world =>
        match Storage.read world.files name with
        | .ok text => (.ok text, world)
        | .error error => (.error error.message, world)
  | store (name text : Text) :
      realm.Asks (α := Except Text Unit) fun world =>
        match Storage.store world.files name text with
        | .ok files => (.ok (), { world with files })
        | .error error => (.error error.message, world)
  | random :
      realm.allowed .random →
      realm.Asks World.random
  | callback {α : Type} {interpreter : Interpreter σ} {answer : World σ → α × World σ} :
      realm.holds interpreter →
      interpreter.callbacks.Answers answer →
      realm.Asks answer

/-- A change of the world that evaluation makes by itself or through a callback. -/
def Realm.Touches (realm : Realm σ) (update : World σ → World σ) : Prop :=
  (∀ world : World σ, world.Routine (update world)) ∨
    ∃ interpreter, realm.holds interpreter ∧ interpreter.callbacks.Performs update

/-- What asks the world touches it. -/
theorem Realm.Asks.touches
    {realm : Realm σ}
    {answer : World σ → α × World σ}
    (asks : realm.Asks answer) :
    realm.Touches fun world => (answer world).2 := by
  cases asks with
  | record entry => exact .inl fun _ => .record entry
  | write text => exact .inl fun _ => .write text
  | read name =>
      refine .inl fun world => ?_
      dsimp only
      split <;> exact .same
  | store name text =>
      refine .inl fun world => ?_
      dsimp only
      split
      · exact .store _
      · exact .same
  | random _ => exact .inl fun world => .draw world.random.2.randomness
  | callback held answers => exact .inr ⟨_, held, answers.performs⟩

/-- The ways to a frame other than the current one. -/
inductive Heading where
  | up
  | down
  | top
  deriving DecidableEq

namespace Heading

/-- The command that goes a way. -/
def command : Heading → Builtin
  | up => .upEvaluate
  | down => .downEvaluate
  | top => .topEvaluate

/-- Run code that way. -/
def evaluate : Heading → Run σ → Text → Eval σ Text
  | up => upEvaluate
  | down => downEvaluate
  | top => topEvaluate

end Heading

/-- Create a variable, empty, where the current frame lacks it. -/
def declare (run : Run σ) (name : Text) : Eval σ Unit := do
  let known ← inspect fun interpreter => interpreter.currentFrame.bindings.contains name
  if !known then
    let _ ← setVariable run name [] .fresh

/-- What a frame is made for. -/
inductive Callee where
  | isolated
  | function (id : FunctionId)
  | catcher (name : Text)

/-- The frame that is made for a callee by a caller. -/
def Callee.frame : Callee → FrameId → Frame
  | isolated, _ => { parent := some rootFrame }
  | function id, caller => { parent := some caller, function := some id }
  | catcher name, caller => { parent := some caller, catching := some name }

/-- Run an action in the new frame of a callee, with variables of its own. -/
def inOwnFrame (run : Run σ) (callee : Callee) (pairs : List (Text × Text))
    (action : Eval σ α) : Eval σ α := do
  let caller ← inspect Interpreter.current
  inNewFrame (callee.frame caller) do
    setVariables run .fresh pairs
    action

/-- Evaluate code in a jail of the interpreter. -/
def inJail (run : Run σ) (clean : Bool) (code : Text) : Eval σ Evaluated := do
  let parent ← interpreter
  onInterpreter (jailInterpreter parent clean) (evaluateIn run parent.context code)

/-- An action that is put together from such parts within a realm, whatever runs its nested code. -/
inductive Assembled (realm : Realm σ) : {α : Type} → (Run σ → Eval σ α) → Prop where
  | pure {α : Type} (value : α) :
      Assembled realm fun _ => Pure.pure value
  | bind {α β : Type} {first : Run σ → Eval σ α} {next : Run σ → α → Eval σ β} :
      Assembled realm first →
      (∀ value, Assembled realm fun run => next run value) →
      Assembled realm fun run => first run >>= next run
  | consult {α β : Type} (view : Interpreter σ → α) {next : Run σ → α → Eval σ β}
      (blind : ∀ run interpreter, realm.holds interpreter →
        next run (view (interpreter.veiled realm.reach)) = next run (view interpreter))
      (assembled : ∀ interpreter, realm.holds interpreter →
        Assembled realm fun run => next run (view interpreter)) :
      Assembled realm fun run => inspect view >>= next run
  | step {update : Interpreter σ → Interpreter σ} :
      Step (fun _ => false) update →
      Assembled realm fun _ => change update
  | record (offset : Int) (reason : Reason) :
      Assembled realm fun _ => raiseAt offset reason
  | drop :
      realm.drops →
      Assembled realm fun _ => clearError
  | ask {α : Type} {answer : World σ → α × World σ} :
      realm.Asks answer →
      Assembled realm fun _ => Eval.ask answer
  | cancellation :
      Assembled realm fun _ => Eval.cancellation
  | halt {α : Type} (stop : Stop) :
      stop ≠ .crash →
      (stop = .exhausted → realm.allowed .whileLoop ∨ realm.allowed .forLoop) →
      Assembled realm fun _ => (throw stop : Eval σ α)
  | nested (code : Text) (ownResult : Bool) :
      Assembled realm fun run => run code ownResult
  | assign (name value : Text) {mode : Mode} :
      mode ≠ .fresh →
      Assembled realm fun run => setVariable run name value mode
  | declare (name : Text) :
      realm.allowed .declareLocal →
      Assembled realm fun run => Eval.declare run name
  | watch (name code : Text) :
      realm.allowed .watch →
      Assembled realm fun _ => Eval.watch name code
  | heading (heading : Heading) (code : Text) :
      realm.allowed heading.command →
      Assembled realm fun run => heading.evaluate run code
  | inOwnFrame {α : Type} (callee : Callee) (pairs : List (Text × Text))
      {action : Run σ → Eval σ α} :
      Assembled realm action →
      Assembled realm fun run => Eval.inOwnFrame run callee pairs (action run)
  | inCatcher {α : Type} {action : Run σ → Eval σ α} :
      Assembled realm action →
      Assembled realm fun run => Eval.inCatcher (action run)
  | catching {α : Type} (code : Text) {refused caught : Run σ → Eval σ α}
      {passed : Run σ → Text → Eval σ α} :
      realm.allowed .attempt →
      Assembled realm refused →
      (∀ value, Assembled realm fun run => passed run value) →
      Assembled realm caught →
      Assembled realm fun run =>
        Eval.catching run code (refused run) (passed run) (caught run)
  | inJail (clean : Bool) (code : Text) :
      realm.allowed .jailEvaluate →
      Assembled realm fun run => Eval.inJail run clean code

/-- Where nothing is within reach, no variable is put, so such a step is one in every realm. -/
theorem Step.of_unreaching
    {update : Interpreter σ → Interpreter σ}
    (step : Step (fun _ => false) update)
    (reach : FrameId → Bool) :
    Step reach update := by
  cases step with
  | putVariable _ _ _ reached => exact nomatch reached
  | define name parameters body => exact .define name parameters body
  | rename old new => exact .rename old new
  | setCatcher code => exact .setCatcher code
  | setDollar expansion => exact .setDollar expansion
  | count tally => exact .count tally
  | finish value => exact .finish value
  | provide value => exact .provide value
  | resume => exact .resume
  | take => exact .take
  | mark offset => exact .mark offset

/-- Whatever is assembled within a realm is composed within it. -/
theorem Assembled.composed
    {realm : Realm σ}
    {action : Run σ → Eval σ α}
    (assembled : Assembled realm action) :
    Composed realm action := by
  induction assembled with
  | pure value =>
      exact .pure value
  | bind _ _ first next =>
      exact .bind first next
  | consult view blind _ next =>
      exact .consult view blind next
  | step step =>
      exact .step (step.of_unreaching _)
  | record offset reason =>
      exact .record offset reason
  | drop drops =>
      exact .drop drops
  | ask _ =>
      exact .ask _
  | cancellation =>
      exact .cancellation
  | halt stop noCrash looping =>
      exact .halt stop noCrash looping
  | nested code ownResult =>
      exact .nested code ownResult
  | assign name value _ =>
      exact .setVariable name value _
  | declare name _ =>
      refine .consult _ (fun run interpreter held => ?_) fun interpreter _ => ?_
      · rw [Interpreter.currentFrame_veiled (realm.current held)]
      · split
        · exact .bind (.setVariable ..) fun _ => .pure _
        · exact .pure _
  | watch name code _ =>
      exact .watch name code
  | heading heading code allowed =>
      cases heading with
      | up => exact .upEvaluate allowed code
      | down => exact .downEvaluate allowed code
      | top => exact .topEvaluate code
  | inOwnFrame callee pairs _ inside =>
      refine .consult _ (fun _ _ _ => rfl) fun _ held => .inNewFrame _ ?_
        (.bind (.setVariables ..) fun _ => inside)
      rintro parent isParent
      cases callee with
      | isolated =>
          cases isParent
          exact realm.root
      | _ =>
          cases isParent
          exact realm.current held
  | inCatcher _ inside =>
      exact .inCatcher inside
  | catching code allowed _ _ _ refused passed caught =>
      exact .catching code allowed refused passed caught
  | inJail clean code allowed =>
      exact .look (fun _ _ _ => rfl) fun _ held => .jail clean _ code allowed held

namespace Assembled

variable {realm : Realm σ}

/-- Looking at the whole interpreter. -/
theorem look
    {next : Run σ → Interpreter σ → Eval σ β}
    (blind : ∀ run interpreter, realm.holds interpreter →
      next run (interpreter.veiled realm.reach) = next run interpreter)
    (assembled : ∀ interpreter, realm.holds interpreter →
      Assembled realm fun run => next run interpreter) :
    Assembled realm fun run => interpreter >>= next run :=
  .consult id blind assembled

/-- Looking at an interpreter is a part, if the view does not reach beyond the realm. -/
theorem inspect
    (view : Interpreter σ → α)
    (blind : ∀ interpreter, realm.holds interpreter →
      view (interpreter.veiled realm.reach) = view interpreter) :
    Assembled realm fun _ => Eval.inspect view := by
  refine .consult view ?_ fun interpreter _ => .pure (view interpreter)
  intro _ interpreter held
  rw [blind interpreter held]

/-- A change of the world is a question without an answer. -/
theorem touch
    {update : World σ → World σ}
    (asks : realm.Asks fun world => ((), update world)) :
    Assembled realm fun _ => Eval.touch update :=
  .ask asks

/-- A record in the log is such a change. -/
theorem log
    (message : String)
    (fields : List (String × LogValue)) :
    Assembled realm fun _ => Eval.log message fields :=
  touch (.record _)

/-- What follows a look at whether the frame is being left. -/
theorem ifStopping
    {next : Run σ → Bool → Eval σ β}
    (assembled : ∀ stopping, Assembled realm fun run => next run stopping) :
    Assembled realm fun run => Eval.isStopping >>= next run := by
  refine .consult _ (fun run interpreter held => ?_) fun _ _ => assembled _
  rw [Interpreter.currentFrame_veiled (realm.current held)]

/-- An error is placed where the command that runs has started. -/
theorem raise
    (reason : Reason) :
    Assembled realm fun _ => Eval.raise reason :=
  .consult _ (fun _ _ _ => rfl) fun _ _ => .record _ reason

/-! ## Readers of words -/

open Source (Cursor)

/-- A flaw is raised where it is found. -/
theorem malformed
    (reader : Reader)
    (offset : Nat)
    (flaw : Source.Flaw) :
    Assembled realm fun _ => Eval.malformed reader offset flaw := by
  simp only [Eval.malformed]
  split
  · exact .record ..
  · exact raise ..

/-- Skipping blanks raises an error for a comment that has no end. -/
theorem skipBlanks
    (reader : Reader)
    (cursor : Cursor) :
    Assembled realm fun _ => Eval.skipBlanks reader cursor := by
  simp only [Eval.skipBlanks]
  split
  · exact .bind (malformed ..) fun _ => .pure _
  · exact .pure _

/-- The name behind a dollar is read, and the code for it is run. -/
theorem dollarPart
    {name : Run σ → Eval σ (Text × Cursor)}
    (assembled : Assembled realm name) :
    Assembled realm fun run => Eval.dollarPart run (name run) :=
  .bind assembled fun _ => .consult _ (fun _ _ _ => rfl) fun _ _ =>
    .bind (.nested _ _) fun _ => .pure _

/-- A part in braces is copied. -/
theorem bracePart
    (reader : Reader)
    (cursor : Cursor) :
    Assembled realm fun _ => Eval.bracePart reader cursor := by
  simp only [Eval.bracePart]
  split
  · exact .pure _
  · exact .bind (malformed ..) fun _ => .pure _

/-- A part in brackets is run. -/
theorem bracketPart
    (reader : Reader)
    (cursor : Cursor) :
    Assembled realm fun run => Eval.bracketPart reader run cursor := by
  simp only [Eval.bracketPart]
  split
  · exact .bind (.nested _ _) fun _ => .pure _
  · exact .bind (malformed ..) fun _ => .pure _

/-- A quoted part is copied, and run where it holds brackets or dollars. -/
theorem quotedPart
    (reader : Reader)
    {name : Run σ → Cursor → Eval σ (Text × Cursor)}
    (assembled : ∀ cursor, Assembled realm fun run => name run cursor)
    (quote : UInt8)
    (start bound : Nat) :
    ∀ (cursor : Cursor) (done : Text),
      Assembled realm fun run =>
        Eval.quotedPart reader run (name run) quote start bound cursor done := by
  induction bound with
  | zero =>
      intro cursor done
      exact .pure _
  | succ bound inductionHypothesis =>
      intro cursor done
      have goOn : ∀ (grown : Text) (after : Cursor),
          Assembled realm fun run => Eval.hasError >>= fun failed =>
            if failed then return (grown.reverse, after)
            else Eval.quotedPart reader run (name run) quote start bound after grown := by
        intro grown after
        refine .consult _ (fun _ _ _ => rfl) fun _ _ => ?_
        split
        · exact .pure _
        · exact inductionHypothesis after grown
      simp only [Eval.quotedPart]
      split
      · exact .bind (malformed ..) fun _ => .pure _
      · split
        · split
          · exact .bind (dollarPart (assembled _)) fun _ => goOn ..
          · exact .bind (bracketPart ..) fun _ => goOn ..
        · exact .pure _

/-- A part is read as its first byte demands. -/
theorem part
    (reader : Reader)
    (bound : Nat) :
    ∀ cursor : Cursor, Assembled realm fun run => Eval.part reader run bound cursor := by
  induction bound with
  | zero =>
      intro cursor
      exact .pure _
  | succ bound inductionHypothesis =>
      intro cursor
      refine .bind (skipBlanks reader cursor) fun cursor => ?_
      split
      · exact .pure _
      · split
        · exact dollarPart (inductionHypothesis _)
        · split
          · exact bracePart ..
          · split
            · exact bracketPart ..
            · split
              · exact quotedPart reader inductionHypothesis ..
              · exact .pure _

/-- A word is read part by part. -/
theorem word
    (reader : Reader)
    (depth bound : Nat) :
    ∀ (cursor : Cursor) (done : Text),
      Assembled realm fun run => Eval.word reader run depth bound cursor done := by
  induction bound with
  | zero =>
      intro cursor done
      exact .pure _
  | succ bound inductionHypothesis =>
      intro cursor done
      refine .bind (part reader depth cursor) fun read => ?_
      obtain ⟨value, after⟩ := read
      simp only
      split
      · exact .bind (malformed ..) fun _ => .pure _
      · refine .consult _ (fun _ _ _ => rfl) fun _ _ => ?_
        split
        · exact .pure _
        · exact inductionHypothesis ..

/-- Words are read one after the other. -/
theorem wordsFrom
    (reader : Reader)
    (depth bound : Nat) :
    ∀ (cursor : Cursor) (done : List Text),
      Assembled realm fun run => Eval.wordsFrom reader run depth bound cursor done := by
  induction bound with
  | zero =>
      intro cursor done
      exact .pure _
  | succ bound inductionHypothesis =>
      intro cursor done
      refine .consult _ (fun _ _ _ => rfl) fun _ _ => ?_
      split
      · exact .pure _
      · refine .bind (word reader depth depth cursor []) fun read => ?_
        cases read with
        | none =>
            exact .pure _
        | some read =>
            exact .bind (skipBlanks reader read.2) fun _ => inductionHypothesis ..

/-- The words of a command end with it. -/
theorem words
    (reader : Reader)
    (bound : Nat)
    (cursor : Cursor) :
    Assembled realm fun run => Eval.words reader run bound cursor :=
  .bind (skipBlanks reader cursor) fun _ => wordsFrom ..

/-- A list is read like words, separators included. -/
theorem readList
    (text : Text) :
    Assembled realm fun run => Eval.readList run text := by
  refine .bind (words ..) fun read => ?_
  cases read with
  | none =>
      exact .pure _
  | some read =>
      exact .pure _

/-- What is read as a list is joined. -/
theorem readJoined
    (text : Text) :
    Assembled realm fun run => Eval.readJoined run text :=
  .bind (readList text) fun _ => .pure _

/-- An expression is read with its parts substituted, and a fault is raised. -/
theorem expression
    (code : Text) :
    Assembled realm fun run => Eval.expression run code := by
  refine .bind (readJoined code) fun text => .consult _ (fun _ _ _ => rfl) fun _ _ => ?_
  split
  · exact .pure _
  · split
    · exact .pure _
    · exact .bind (raise _) fun _ => .pure _

end Assembled

end Eval

end LittleScript
