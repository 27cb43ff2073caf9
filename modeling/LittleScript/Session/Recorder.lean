import LittleScript.Machine.State

namespace LittleScript.Session

/-!
# A host that keeps a record

A host whose callbacks follow a plan and who writes down every call.  Texts are read from and
stored in a table of the host's own, so that a script meets no files unless the plan leaves them to
the default.
-/

/-- A call that the host received. -/
inductive Event where
  | write (text : Text)
  | error (message : Text)
  | exit (status : Option Text)
  | set (name value : Text)
  | get (name : Text)
  | read (name : Text)
  | store (name text : Text)
  | source (name : Text)
  /-- A host command dropped a pending error. -/
  | cleared (message : Text)
  deriving Repr, DecidableEq

/-- The state of the host: the calls it received, the latest first, and its table of texts. -/
structure Recorder where
  events : List Event := []
  entries : Table Text := {}

namespace Recorder

/-- Write down a call. -/
def note (recorder : Recorder) (event : Event) : Recorder :=
  { recorder with events := event :: recorder.events }

/-- Put a text into the table. -/
def keep (recorder : Recorder) (name text : Text) : Recorder :=
  { recorder with entries := recorder.entries.insert name text }

/-- The calls in the order in which they came. -/
def history (recorder : Recorder) : List Event :=
  recorder.events.reverse

/-- Forget the calls. -/
def forget (recorder : Recorder) : Recorder :=
  { recorder with events := [] }

end Recorder

/-- Write down a call in the world. -/
def noted (event : Event) (world : World Recorder) : World Recorder :=
  world.mapHost (·.note event)

/-- What the host does when a script exits. -/
inductive ExitPlan where
  | note
  | cancel
  deriving Repr, DecidableEq

/-- Which assignments the host refuses and which it stores in capital letters. -/
structure AssignmentPlan where
  vetoed : List Text := []
  raised : List Text := []
  deriving Repr, DecidableEq

/-- Which callbacks the host provides, and how they answer. -/
structure Plan where
  write : Bool := false
  error : Bool := false
  exit : Option ExitPlan := none
  setVariable : Option AssignmentPlan := none
  getVariable : Option (List (Text × Option Text)) := none
  /-- The texts to put into the table. -/
  read : Option (List (Text × Text)) := none
  /-- The names under which nothing may be stored. -/
  store : Option (List Text) := none
  source : Option (List (Text × Text)) := none
  deriving Repr, DecidableEq

/-- The table with the given entries; of two under one name the later one counts. -/
def tabulate {α : Type} (entries : List (Text × α)) : Table α :=
  entries.foldl (fun table entry => table.insert entry.1 entry.2) {}

/-- What the plan makes of an assignment. -/
def AssignmentPlan.answer (plan : AssignmentPlan) (name value : Text) : Assignment :=
  if plan.vetoed.contains name then .veto
  else if plan.raised.contains name then .replace (value.map Byte.toUpper)
  else .accept

namespace Plan

/-- Put the texts of the plan into the table of the host. -/
def prepare (plan : Plan) (recorder : Recorder) : Recorder :=
  (plan.read.getD []).foldl (fun recorder entry => recorder.keep entry.1 entry.2) recorder

/-- Note an exit, and cancel the running context if that is planned. -/
def onExit (plan : ExitPlan) (status : Option Text) (world : World Recorder) : World Recorder :=
  let world := noted (.exit status) world
  match plan with
  | .note => world
  | .cancel => world.cancel

/-- Read a text from the table of the host. -/
def onRead (name : Text) (world : World Recorder) : Except Text Text × World Recorder :=
  let world := noted (.read name) world
  match world.host.entries.get? name with
  | some text => (.ok text, world)
  | none => (.error (Text.ofString "no such entry"), world)

/-- Store a text in the table of the host, unless its name is denied. -/
def onStore (denied : List Text) (name text : Text) (world : World Recorder) :
    Except Text Unit × World Recorder :=
  let world := noted (.store name text) world
  if denied.contains name then (.error (Text.ofString "store denied"), world)
  else (.ok (), world.mapHost (·.keep name text))

/-- Answer with code from a table. -/
def onSource (codes : Table Text) (name : Text) (world : World Recorder) :
    Except Text Text × World Recorder :=
  let world := noted (.source name) world
  match codes.get? name with
  | some code => (.ok code, world)
  | none => (.error (Text.ofString "no such source"), world)

/-- The callbacks of the plan. -/
def callbacks (plan : Plan) : Callbacks Recorder where
  write := if plan.write then some fun text => noted (.write text) else none
  error := if plan.error then some fun error => noted (.error error.text) else none
  exit := plan.exit.map onExit
  setVariable := plan.setVariable.map fun assignments name value world =>
    (assignments.answer name value, noted (.set name value) world)
  getVariable := plan.getVariable.map fun answers =>
    let table := tabulate answers
    fun name world => (table.get? name, noted (.get name) world)
  read := plan.read.map fun _ => onRead
  store := plan.store.map onStore
  source := plan.source.map fun codes => onSource (tabulate codes)

end Plan

end LittleScript.Session
