import LittleScript.Proofs.AssembledCommands

namespace LittleScript.Eval.Composed

/-!
# Readers and scripts are composed

Reading words and running a script command by command are composed of the steps of evaluation,
since they are assembled from its parts.
-/

open Source (Cursor)

variable {σ : Type} {realm : Realm σ} {scope : Scope σ}

/-- Blanks are skipped within reach. -/
theorem skipBlanks
    (reader : Reader)
    (cursor : Cursor) :
    Composed realm fun _ => Eval.skipBlanks reader cursor :=
  (Assembled.skipBlanks reader cursor).composed

/-- The code for a name behind a dollar is run within reach. -/
theorem dollarPart
    {name : Run σ → Eval σ (Text × Cursor)}
    (composed : Composed realm name) :
    Composed realm fun run => Eval.dollarPart run (name run) :=
  .bind composed fun _ => .consult _ (fun _ _ _ => rfl) fun _ _ =>
    .bind (.nested _ _) fun _ => .pure _

/-- A part in brackets is run within reach. -/
theorem bracketPart
    (reader : Reader)
    (cursor : Cursor) :
    Composed realm fun run => Eval.bracketPart reader run cursor :=
  (Assembled.bracketPart reader cursor).composed

/-- A part of a word is read within reach. -/
theorem part
    (reader : Reader)
    (bound : Nat)
    (cursor : Cursor) :
    Composed realm fun run => Eval.part reader run bound cursor :=
  (Assembled.part reader bound cursor).composed

/-- A word is read within reach. -/
theorem word
    (reader : Reader)
    (depth bound : Nat)
    (cursor : Cursor)
    (done : Text) :
    Composed realm fun run => Eval.word reader run depth bound cursor done :=
  (Assembled.word reader depth bound cursor done).composed

/-- The words of a command are read within reach. -/
theorem words
    (reader : Reader)
    (bound : Nat)
    (cursor : Cursor) :
    Composed realm fun run => Eval.words reader run bound cursor :=
  (Assembled.words reader bound cursor).composed

/-- A command is read and called within reach. -/
theorem commandAt
    (rounds bound : Nat)
    (reader : Reader)
    (cursor : Cursor) :
    Composed scope.toRealm fun run => Eval.commandAt run rounds bound reader cursor :=
  (Assembled.commandAt rounds bound reader cursor).composed

/-- Commands are run one after the other within reach. -/
theorem commands
    (rounds : Nat)
    (reader : Reader)
    (depth bound : Nat)
    (cursor : Cursor)
    (last : Text) :
    Composed scope.toRealm fun run => Eval.commands run rounds reader depth bound cursor last :=
  (Assembled.commands rounds reader depth bound cursor last).composed

/-- The depth is checked within reach. -/
theorem guardDepth :
    Composed realm fun _ => Eval.guardDepth :=
  Assembled.guardDepth.composed

/-- An error is reported within reach. -/
theorem reportError :
    Composed realm fun _ => Eval.reportError :=
  Assembled.reportError.composed

/-- An evaluation starts within reach. -/
theorem prepare
    (ownResult outermost : Bool)
    (drops : outermost = true → realm.drops) :
    Composed realm fun _ => Eval.prepare ownResult outermost :=
  (Assembled.prepare ownResult outermost drops).composed

/-- A pending result is taken within reach. -/
theorem settleValue
    (ownResult : Bool)
    (value : Text) :
    Composed realm fun _ => Eval.settleValue ownResult value :=
  (Assembled.settleValue ownResult value).composed

/-- Running a script as the innermost evaluation is composed. -/
theorem scriptBody
    (rounds : Nat)
    (code : Text)
    (ownResult outermost : Bool)
    (drops : outermost = true → scope.drops) :
    Composed scope.toRealm fun run => Eval.scriptBody run rounds code ownResult outermost :=
  (Assembled.scriptBody rounds code ownResult outermost drops).composed

end LittleScript.Eval.Composed
