import LittleScript.Machine.Evaluation

namespace LittleScript.Eval

/-!
# Variables

A name means the variable of the current frame, or else the global variable.  Assignments to
existing variables run their watch; the host may veto or replace an assignment to a global
variable, and may answer for global and unset variables.
-/

variable {σ : Type}

/-- Run the watch of a variable in the frame that holds it. -/
def runWatch (run : Run σ) (frame : FrameId) (code : Text) : Eval σ Unit := do
  if !code.isEmpty then
    let here ← inspect Interpreter.current
    change fun interpreter => { interpreter with current := frame }
    ensuring (do let _ ← run code true) fun machine =>
      { machine with interpreter := { machine.interpreter with current := here } }

/-- What the host makes of an assignment to a global variable: the value to store, unless vetoed. -/
def mediate (name value : Text) : Eval σ (Option Text) := do
  match (← interpreter).callbacks.setVariable with
  | none => return some value
  | some handle =>
      match ← ask (handle name value) with
      | .veto => return none
      | .accept => return some value
      | .replace other => return some other

/-- Put a variable without a watch into a frame. -/
def defineVariable (frame : FrameId) (name value : Text) : Eval σ Unit :=
  change fun interpreter => interpreter.putVariable frame name { name, owner := frame, value }

/-- Store a value in a variable that exists, run its watch, and tell what it then holds. -/
def assign (run : Run σ) (frame : FrameId) (name value : Text) (existing : Variable) :
    Eval σ Text := do
  change fun interpreter => interpreter.putVariable frame name { existing with value }
  runWatch run frame existing.watch
  inspect fun interpreter =>
    match (interpreter.frame frame).bindings.get? name with
    | some held => held.value
    | none => value

/--
Assign a variable.  The result is what the variable holds afterwards, or nothing when the name is
empty or the host vetoed the assignment.
-/
def setVariable (run : Run σ) (name value : Text) (mode : Mode) : Eval σ (Option Text) := do
  if name.isEmpty then return none
  let interpreter ← interpreter
  let frame := if mode == .global then rootFrame else interpreter.current
  if mode == .fresh then
    defineVariable frame name value
    return some value
  let target :=
    if mode == .own then ((interpreter.frame frame).bindings.get? name).map (frame, ·)
    else interpreter.lookup? frame name
  let owner := (target.map Prod.fst).getD frame
  let stored ← if owner == rootFrame then mediate name value else pure (some value)
  match stored, target with
  | none, _ => return none
  | some stored, none =>
      defineVariable frame name stored
      return some stored
  | some stored, some (owner, existing) =>
      return some (← assign run owner name stored existing)

/-- The value of a variable, or a default; the host may answer that there is no value. -/
def getVariableD (name : Text) (default : Option Text) : Eval σ (Option Text) := do
  let interpreter ← interpreter
  let target := interpreter.visible? name
  let owner := (target.map Prod.fst).getD rootFrame
  let answer ←
    match interpreter.callbacks.getVariable with
    | some handle => if owner == rootFrame then ask (handle name) else pure none
    | none => pure none
  match answer with
  | some value => return value
  | none =>
      match target with
      | some (_, found) => return some found.value
      | none => return default

/-- The value of a variable, empty when it has none. -/
def getVariable (name : Text) : Eval σ Text := do
  return (← getVariableD name (some [])).getD []

/-- Attach code to a variable, which is created empty when the name means none. -/
def watch (name code : Text) : Eval σ Unit :=
  change fun interpreter =>
    match interpreter.visible? name with
    | some (frame, found) => interpreter.putVariable frame name { found with watch := code }
    | none =>
        interpreter.putVariable interpreter.current name
          { name, owner := interpreter.current, value := [], watch := code }

end LittleScript.Eval
