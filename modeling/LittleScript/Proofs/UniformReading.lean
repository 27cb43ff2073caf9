import LittleScript.Proofs.UniformActions

namespace LittleScript.Eval

/-!
# Reading words and variables is uniform

Words are read alike at two depths, whatever code is run for their parts, and so are variables and
the frames in which code is run.
-/

open Source (Cursor)

variable {σ α β : Type} {terms : Terms} {footing : Footing}

/-- What a callback answers is heeded. -/
theorem Kept.answers
    {interpreter : Interpreter σ}
    (kept : Kept terms footing interpreter)
    {answer : World σ → α × World σ}
    (answers : interpreter.callbacks.Answers answer) :
    terms.Heeds answer :=
  kept.heeds.imp_right fun blind => blind.answers answers

namespace Uniform

/-! ## Putting uniform actions together -/

/-- An action that runs no code is uniform if it is alike at both depths. -/
theorem of_alike
    {action : Eval σ α}
    (alike : Alike terms footing action action) :
    Uniform terms footing fun _ => action :=
  ⟨fun _ _ _ => alike⟩

/-- A value is the same at both depths. -/
theorem pure
    (value : α) :
    Uniform (σ := σ) terms footing fun _ => Pure.pure value :=
  of_alike (.pure value)

/-- Uniform actions follow one another. -/
theorem bind
    {first : Run σ → Eval σ α}
    {next : Run σ → α → Eval σ β}
    (uniform : Uniform terms footing first)
    (goesOn : ∀ value, Uniform terms footing fun run => next run value) :
    Uniform terms footing fun run => first run >>= next run :=
  ⟨fun shallow deep runs => (uniform.alike shallow deep runs).bind fun value =>
    (goesOn value).alike shallow deep runs⟩

/-- Code is run alike, which is what is assumed of the two ways to run it. -/
theorem nested
    (code : Text)
    (ownResult : Bool) :
    Uniform (σ := σ) terms footing fun run => run code ownResult :=
  ⟨fun _ _ runs => runs footing code ownResult⟩

/-- What follows a look at the interpreter may use what is kept of it at both depths. -/
theorem consult
    (view : Interpreter σ → α)
    (blind : ∀ interpreter active down,
      view { interpreter with active, down } = view interpreter)
    {next : Run σ → α → Eval σ β}
    (goesOn : ∀ interpreter, Kept terms footing interpreter →
      Uniform terms footing fun run => next run (view interpreter)) :
    Uniform terms footing fun run => Eval.inspect view >>= next run :=
  ⟨fun shallow deep runs => .consult view blind fun interpreter kept =>
    (goesOn interpreter kept).alike shallow deep runs⟩

/-- Looking at the whole interpreter. -/
theorem look
    {next : Run σ → Interpreter σ → Eval σ β}
    (blind : ∀ run interpreter active down,
      next run { interpreter with active, down } = next run interpreter)
    (goesOn : ∀ interpreter, Kept terms footing interpreter →
      Uniform terms footing fun run => next run interpreter) :
    Uniform terms footing fun run => interpreter >>= next run := by
  refine ⟨fun shallow deep runs first second alike => ?_⟩
  have sameNext := alike.view_eq (next deep) (blind deep)
  have goesAlike := (goesOn first.interpreter alike.kept).alike shallow deep runs first second alike
  rw [← sameNext] at goesAlike
  exact goesAlike

/-- A look that does not see how evaluations are nested gives the same. -/
theorem inspect
    (view : Interpreter σ → α)
    (blind : ∀ interpreter active down,
      view { interpreter with active, down } = view interpreter) :
    Uniform terms footing fun _ => Eval.inspect view :=
  consult view blind fun _ _ => pure _

/-- Code is run in the same frame, whatever frame evaluation came up from. -/
theorem inFrame
    (frame : FrameId)
    (down : Option FrameId)
    {action : Run σ → Eval σ α}
    (inside : Uniform terms footing.visiting action) :
    Uniform terms footing fun run => Eval.inFrame frame down (action run) :=
  ⟨fun shallow deep runs => .inFrame frame down (inside.alike shallow deep runs)⟩

/-- A new frame is the same at both depths. -/
theorem inNewFrame
    (frame : Frame)
    {action : Run σ → Eval σ α}
    (inside : Uniform terms footing action) :
    Uniform terms footing fun run => Eval.inNewFrame frame (action run) :=
  ⟨fun shallow deep runs => .inNewFrame frame (inside.alike shallow deep runs)⟩

/-- An error is raised at the same place of the outermost text. -/
theorem raise
    (reason : Reason) :
    Uniform (σ := σ) terms footing fun _ => Eval.raise reason :=
  of_alike (.raise reason)

/-- The same is put on record. -/
theorem log
    (message : String)
    (fields : List (String × LogValue)) :
    Uniform (σ := σ) terms footing fun _ => Eval.log message fields :=
  of_alike (.log message fields)

/-! ## Words -/

/-- A flaw of the outermost text is placed by the text itself, at the bottom of both depths. -/
theorem malformed
    {reader : Reader}
    (bottom : reader.outermost = true → footing.shallow = [])
    (offset : Nat)
    (flaw : Source.Flaw) :
    Uniform (σ := σ) terms footing fun _ => Eval.malformed reader offset flaw := by
  simp only [Eval.malformed]
  split
  · next outermost =>
    exact of_alike (.raiseAt _ _ fun start isStart => by simp [bottom outermost] at isStart)
  · exact raise _

section Reading

variable {reader : Reader} (bottom : reader.outermost = true → footing.shallow = [])

include bottom

/-- The same blanks are skipped. -/
theorem skipBlanks
    (cursor : Cursor) :
    Uniform (σ := σ) terms footing fun _ => Eval.skipBlanks reader cursor := by
  simp only [Eval.skipBlanks]
  split
  · exact .bind (malformed bottom ..) fun _ => .pure _
  · exact .pure _

omit bottom in
/-- The same name stands behind a dollar, and the code for it is run alike. -/
theorem dollarPart
    {name : Run σ → Eval σ (Text × Cursor)}
    (uniform : Uniform terms footing name) :
    Uniform terms footing fun run => Eval.dollarPart run (name run) :=
  .bind uniform fun _ => .consult _ (fun _ _ _ => rfl) fun _ _ =>
    .bind (.nested _ _) fun _ => .pure _

/-- The same part in braces is copied. -/
theorem bracePart
    (cursor : Cursor) :
    Uniform (σ := σ) terms footing fun _ => Eval.bracePart reader cursor := by
  simp only [Eval.bracePart]
  split
  · exact .pure _
  · exact .bind (malformed bottom ..) fun _ => .pure _

/-- The same part in brackets is run alike. -/
theorem bracketPart
    (cursor : Cursor) :
    Uniform (σ := σ) terms footing fun run => Eval.bracketPart reader run cursor := by
  simp only [Eval.bracketPart]
  split
  · exact .bind (.nested _ _) fun _ => .pure _
  · exact .bind (malformed bottom ..) fun _ => .pure _

/-- A quoted part is read alike, whatever is run in it. -/
theorem quotedPart
    {name : Run σ → Cursor → Eval σ (Text × Cursor)}
    (uniform : ∀ cursor, Uniform terms footing fun run => name run cursor)
    (quote : UInt8)
    (start bound : Nat) :
    ∀ (cursor : Cursor) (done : Text),
      Uniform terms footing fun run =>
        Eval.quotedPart reader run (name run) quote start bound cursor done := by
  induction bound with
  | zero =>
      intro cursor done
      exact .pure _
  | succ bound inductionHypothesis =>
      intro cursor done
      have goOn : ∀ (grown : Text) (after : Cursor),
          Uniform terms footing fun run => Eval.hasError >>= fun failed =>
            if failed then return (grown.reverse, after)
            else Eval.quotedPart reader run (name run) quote start bound after grown := by
        intro grown after
        refine .consult _ (fun _ _ _ => rfl) fun _ _ => ?_
        split
        · exact .pure _
        · exact inductionHypothesis after grown
      simp only [Eval.quotedPart]
      split
      · exact .bind (malformed bottom ..) fun _ => .pure _
      · split
        · split
          · exact .bind (dollarPart (uniform _)) fun _ => goOn ..
          · exact .bind (bracketPart bottom _) fun _ => goOn ..
        · exact .pure _

/-- A part is read alike, whatever its first byte demands. -/
theorem part
    (bound : Nat) :
    ∀ cursor : Cursor,
      Uniform (σ := σ) terms footing fun run => Eval.part reader run bound cursor := by
  induction bound with
  | zero =>
      intro cursor
      exact .pure _
  | succ bound inductionHypothesis =>
      intro cursor
      refine .bind (skipBlanks bottom cursor) fun cursor => ?_
      split
      · exact .pure _
      · split
        · exact dollarPart (inductionHypothesis _)
        · split
          · exact bracePart bottom _
          · split
            · exact bracketPart bottom _
            · split
              · exact quotedPart bottom inductionHypothesis ..
              · exact .pure _

/-- A word is read alike, part by part. -/
theorem word
    (depth bound : Nat) :
    ∀ (cursor : Cursor) (done : Text),
      Uniform (σ := σ) terms footing fun run => Eval.word reader run depth bound cursor done := by
  induction bound with
  | zero =>
      intro cursor done
      exact .pure _
  | succ bound inductionHypothesis =>
      intro cursor done
      refine .bind (part bottom depth cursor) fun read => ?_
      obtain ⟨value, after⟩ := read
      simp only
      split
      · exact .bind (malformed bottom ..) fun _ => .pure _
      · refine .consult _ (fun _ _ _ => rfl) fun _ _ => ?_
        split
        · exact .pure _
        · exact inductionHypothesis ..

/-- Words are read alike, one after the other. -/
theorem wordsFrom
    (depth bound : Nat) :
    ∀ (cursor : Cursor) (done : List Text),
      Uniform (σ := σ) terms footing fun run =>
        Eval.wordsFrom reader run depth bound cursor done := by
  induction bound with
  | zero =>
      intro cursor done
      exact .pure _
  | succ bound inductionHypothesis =>
      intro cursor done
      refine .consult _ (fun _ _ _ => rfl) fun _ _ => ?_
      split
      · exact .pure _
      · refine .bind (word bottom depth depth cursor []) fun read => ?_
        cases read with
        | none =>
            exact .pure _
        | some read =>
            exact .bind (skipBlanks bottom read.2) fun _ => inductionHypothesis ..

/-- A command is read alike. -/
theorem words
    (bound : Nat)
    (cursor : Cursor) :
    Uniform (σ := σ) terms footing fun run => Eval.words reader run bound cursor :=
  .bind (skipBlanks bottom cursor) fun _ => wordsFrom bottom ..

end Reading

/-- A list is read alike. -/
theorem readList
    (text : Text) :
    Uniform (σ := σ) terms footing fun run => Eval.readList run text := by
  have inner : (⟨false, true⟩ : Reader).outermost = true → footing.shallow = [] :=
    fun outermost => nomatch outermost
  refine .bind (words inner ..) fun read => ?_
  cases read with
  | none =>
      exact .pure _
  | some read =>
      exact .pure _

/-- What is read as a list is joined alike. -/
theorem readJoined
    (text : Text) :
    Uniform (σ := σ) terms footing fun run => Eval.readJoined run text :=
  .bind (readList text) fun _ => .pure _

/-- An expression is read alike and has the same fault. -/
theorem expression
    (code : Text) :
    Uniform (σ := σ) terms footing fun run => Eval.expression run code := by
  refine .bind (readJoined code) fun text => .consult _ (fun _ _ _ => rfl) fun _ _ => ?_
  split
  · exact .pure _
  · split
    · exact .pure _
    · exact .bind (raise _) fun _ => .pure _

/-! ## Variables -/

/-- The same variable is found, and the same callback is asked. -/
theorem getVariableD
    (name : Text)
    (default : Option Text) :
    Uniform (σ := σ) terms footing fun _ => Eval.getVariableD name default := by
  have asValue :
      Eval.getVariableD (σ := σ) name default = interpreter >>= fun interpreter =>
        Assembled.valueOf name default interpreter.callbacks.getVariable
          (interpreter.visible? name) := rfl
  rw [asValue]
  refine look (fun _ _ _ _ => rfl) fun interpreter kept => ?_
  simp only [Assembled.valueOf]
  generalize interpreter.visible? name = target
  split
  · next handle isHandle =>
    split
    · refine .bind (of_alike (.ask (kept.answers (.getVariable name isHandle)))) fun answer => ?_
      cases answer <;> cases target <;> exact .pure _
    · refine .bind (.pure _) fun answer => ?_
      cases answer <;> cases target <;> exact .pure _
  · refine .bind (.pure _) fun answer => ?_
    cases answer <;> cases target <;> exact .pure _

/-- Without a default a name is read alike. -/
theorem getVariable
    (name : Text) :
    Uniform (σ := σ) terms footing fun _ => Eval.getVariable name :=
  .bind (getVariableD ..) fun _ => .pure _

/-- Names are read alike, one after the other. -/
theorem getVariables
    (names : List Text) :
    Uniform (σ := σ) terms footing fun _ => Eval.getVariables names := by
  induction names with
  | nil =>
      exact .pure _
  | cons name rest inductionHypothesis =>
      exact .bind (getVariable name) fun _ => .bind inductionHypothesis fun _ => .pure _

/-- The same variable is put into the same frame. -/
theorem putVariable
    (frame : FrameId)
    (name : Text)
    (entry : Variable) :
    Uniform (σ := σ) terms footing fun _ =>
      change fun interpreter => interpreter.putVariable frame name entry :=
  of_alike <| .change _ (fun _ _ _ => rfl) fun _ kept => ⟨kept.offers, kept.heeds, kept.placed⟩

/-- The same callback is asked about a value to be assigned. -/
theorem mediate
    (name value : Text) :
    Uniform (σ := σ) terms footing fun _ => Eval.mediate name value := by
  refine look (fun _ _ _ _ => rfl) fun interpreter kept => ?_
  split
  · exact .pure _
  · next handle isHandle =>
    have heeds : terms.Heeds (handle name value) :=
      kept.heeds.imp_right fun blind => blind.assigned isHandle name value
    refine .bind (of_alike (.ask heeds)) fun answer => ?_
    cases answer <;> exact .pure _

/-- A watch runs alike, in the frame of its variable. -/
theorem runWatch
    (frame : FrameId)
    (code : Text) :
    Uniform (σ := σ) terms footing fun run => Eval.runWatch run frame code := by
  simp only [Eval.runWatch]
  split
  · refine .consult _ (fun _ _ _ => rfl) fun interpreter _ => ⟨fun shallow deep runs => ?_⟩
    refine .bind (.change _ (fun _ _ _ => rfl) fun _ kept =>
      ⟨kept.offers, kept.heeds, kept.placed⟩) fun _ first second alike => ?_
    have watches : Alike terms footing (shallow code true >>= fun _ => Pure.pure ())
        (deep code true >>= fun _ => Pure.pure ()) :=
      .bind (runs footing code true) fun _ => .pure _
    refine (watches first second alike).ensuring id fun after other ends => ?_
    exact ends.change (fun changed => { changed with current := interpreter.current })
      (fun _ _ _ => rfl) fun _ kept => ⟨kept.offers, kept.heeds, kept.placed⟩
  · exact .pure _

/-- A variable that exists is assigned alike, and its watch runs. -/
theorem assign
    (frame : FrameId)
    (name value : Text)
    (existing : Variable) :
    Uniform (σ := σ) terms footing fun run => Eval.assign run frame name value existing :=
  .bind (putVariable ..) fun _ => .bind (runWatch ..) fun _ => .inspect _ fun _ _ _ => rfl

/-- Store what the host leaves of a value, in the variable that has been found or in a new one. -/
def assignLeft (run : Run σ) (name : Text) (frame : FrameId)
    (target : Option (FrameId × Variable)) (left : Option Text) : Eval σ (Option Text) :=
  match left, target with
  | none, _ => Pure.pure none
  | some stored, none =>
      Eval.defineVariable frame name stored >>= fun _ => Pure.pure (some stored)
  | some stored, some (owner, existing) =>
      Eval.assign run owner name stored existing >>= fun held => Pure.pure (some held)

/-- Where a variable is found or made, it is assigned alike. -/
theorem assignIn
    (name value : Text)
    (mode : Mode)
    (frame : FrameId)
    (target : Option (FrameId × Variable)) :
    Uniform (σ := σ) terms footing fun run =>
      Composed.assignIn run name value mode frame target := by
  have store : ∀ stored : Option Text, Uniform (σ := σ) terms footing fun run =>
      assignLeft run name frame target stored := by
    intro stored
    cases stored with
    | none =>
        exact .pure _
    | some stored =>
        cases target with
        | none =>
            exact .bind (putVariable ..) fun _ => .pure _
        | some found =>
            exact .bind (assign ..) fun _ => .pure _
  simp only [Composed.assignIn]
  split
  · exact .bind (putVariable ..) fun _ => .pure _
  · split
    · exact .bind (mediate name value) store
    · exact .bind (.pure _) store

/-- The frame for an assignment is the same at both depths. -/
theorem setVariable
    (name value : Text)
    (mode : Mode) :
    Uniform (σ := σ) terms footing fun run => Eval.setVariable run name value mode := by
  have asAssignment : ∀ run : Run σ,
      Eval.setVariable run name value mode =
        if name.isEmpty then Pure.pure none
        else interpreter >>= fun interpreter =>
          Composed.assignIn run name value mode (Composed.assignedFrame mode interpreter)
            (Composed.assigned? mode name interpreter) := by
    intro run
    simp only [Eval.setVariable]
    split <;> rfl
  simp only [asAssignment]
  split
  · exact .pure _
  · exact look (fun _ _ _ _ => rfl) fun _ _ => assignIn ..

/-- Variables are assigned alike, one after the other. -/
theorem setVariables
    (mode : Mode)
    (pairs : List (Text × Text)) :
    Uniform (σ := σ) terms footing fun run => Eval.setVariables run mode pairs := by
  induction pairs with
  | nil =>
      exact .pure _
  | cons pair rest inductionHypothesis =>
      exact .bind (setVariable ..) fun _ => inductionHypothesis

/-- A watch is set on the same variable. -/
theorem watch
    (name code : Text) :
    Uniform (σ := σ) terms footing fun _ => Eval.watch name code := by
  refine of_alike (.change _ (fun interpreter active down => ?_) fun interpreter kept => ?_)
  · have sameVisible : ({ interpreter with active, down } : Interpreter σ).visible? name =
        interpreter.visible? name := rfl
    simp only [sameVisible]
    split <;> rfl
  · split <;> exact ⟨kept.offers, kept.heeds, kept.placed⟩

/-! ## Other frames -/

/-- Code is run in the frame of the caller, which is the same. -/
theorem upEvaluate
    (code : Text) :
    Uniform (σ := σ) terms footing fun run => Eval.upEvaluate run code := by
  refine look (fun _ _ _ _ => rfl) fun interpreter _ => ?_
  split
  · exact .nested ..
  · exact .inFrame _ _ (.nested ..)

/-- Code is run in the root frame. -/
theorem topEvaluate
    (code : Text) :
    Uniform (σ := σ) terms footing fun run => Eval.topEvaluate run code := by
  refine .consult _ (fun _ _ _ => rfl) fun interpreter _ => ?_
  split
  · exact .nested ..
  · exact .inFrame _ _ (.nested ..)

/-- Code is run in a frame of its own, with the same values passed in and out. -/
theorem isolatedEvaluate
    (code : Text)
    (imports exports : List Text) :
    Uniform (σ := σ) terms footing fun run => Eval.isolatedEvaluate run code imports exports :=
  .bind (getVariables imports) fun _ =>
    .bind (.inNewFrame _ (.bind (setVariables ..) fun _ => .bind (.nested ..) fun _ =>
      .bind (getVariables exports) fun _ => .pure _)) fun _ =>
    .bind (setVariables ..) fun _ => .pure _

/-- The same jail is opened, and the same comes out of it. -/
theorem jailEvaluate
    (code : Text)
    (clean : Bool) :
    Uniform (σ := σ) terms footing fun run => Eval.jailEvaluate run code clean := by
  refine look (fun _ _ _ _ => rfl) fun interpreter kept => .bind (log ..) fun _ =>
    .bind ⟨fun _ _ runs => .inJail kept clean (.evaluateIn runs _ _)⟩ fun evaluated => ?_
  split
  · exact .bind (raise _) fun _ => .pure _
  · exact .pure _

end Uniform

end LittleScript.Eval
