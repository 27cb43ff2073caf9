import LittleScript.Console

namespace LittleScript

/-!
# The program

Reads what the command line needs, lets it work on a copy of the files, and carries out the result.
Files are fetched when the work on the copy has missed them, and the work is then done again; only
the last attempt shows.
-/

/-- Text as bytes for an output. -/
def Text.toBytes (text : Text) : ByteArray :=
  ⟨text.toArray⟩

/-- The names of files that a run could not find. -/
def missedNames (log : List LogEntry) : List Text :=
  log.filterMap fun entry =>
    match entry.fields with
    | (_, .text name) :: (_, .text _) :: [] => some name
    | _ => none

/-- The file of a name, if there is one. -/
def fetchFile (name : Text) : IO (Option Text) := do
  match String.fromUTF8? name.toBytes with
  | none => return none
  | some path =>
      try return some (← IO.FS.readBinFile path).toList
      catch _ => return none

/-- Fetch files that are there and have not been fetched before. -/
def fetchFiles (files : FileSystem) : List Text → IO (FileSystem × Bool)
  | [] => return (files, false)
  | name :: rest => do
      let known := match files.find name with | .ok _ => true | .error _ => false
      match ← if known then pure none else fetchFile name with
      | some content =>
          let (files, _) ← fetchFiles (files.add name content) rest
          return (files, true)
      | none => fetchFiles files rest

/-- Try something until it misses no file that could be fetched. -/
partial def attempt {α : Type} (files : FileSystem) (action : FileSystem → α)
    (log : α → List LogEntry) : IO (FileSystem × α) := do
  let result := action files
  let (fetched, more) ← fetchFiles files (missedNames (log result))
  if more then attempt fetched action log else return (files, result)

/-- Store the files that differ from what they were. -/
def storeFiles (before after : FileSystem) : IO Unit := do
  for (name, content) in after.files.entries do
    if before.files.get? name != some content then
      match String.fromUTF8? name.toBytes with
      | some path => IO.FS.writeBinFile path content.toBytes
      | none => pure ()

/-- Read an input to its end. -/
partial def readAll (input : IO.FS.Stream) (done : Text) : IO Text := do
  let bytes ← input.read 65536
  if bytes.isEmpty then return done else readAll input (done ++ bytes.toList)

/-- Write a text and see to it that it shows. -/
def emit (output : IO.FS.Stream) (text : Text) : IO Unit := do
  output.write text.toBytes
  output.flush

/-- Show how a command ended and give its status. -/
def conclude (result : Console.Result) : IO UInt32 := do
  emit (← IO.getStdout) result.output
  emit (← IO.getStderr) result.errors
  match result.ending with
  | .success => return 0
  | .exited status => return UInt32.ofNat (status.toInt % 256).toNat
  | ending =>
      emit (← IO.getStderr) (ending.message.getD [] ++ [Byte.newline])
      return 1

/-- Do what the arguments ask for on a copy of the files. -/
def work (surroundings : Console.Surroundings) (arguments : List Text) : IO UInt32 := do
  let (files, _) ← fetchFiles surroundings.files arguments
  let (before, result) ← attempt files
    (fun files => Console.execute { surroundings with files } arguments) Console.Result.log
  storeFiles before result.files
  conclude result

/-- One line of the input without its line break, unless the input is at its end. -/
def nextLine (input : IO.FS.Stream) : IO (Option Text) := do
  let line ← input.getLine
  if line.isEmpty then return none
  let text := Text.ofString line
  return some (Text.dropEnding [Byte.carriageReturn] (Text.dropEnding [Byte.newline] text))

/-- Evaluate a chunk, show what it wrote, and remember it. -/
def answerChunk (machine : Machine Unit) (history : Repl.History) (code : Text) :
    IO (Machine Unit × Repl.History) := do
  let (before, round, after) ← attempt machine.world.files
    (fun files =>
      let world := { machine.world with files, records := [] }
      Repl.converseOnce { machine with world } ⟨[], code⟩)
    (fun (_, after) => after.world.log)
  storeFiles before after.world.files
  emit (← IO.getStdout) round.output
  return (after, (round.remembered.map history.remember).getD history)

/-- Ask for lines and answer chunks until the input ends. -/
partial def conversation (input : IO.FS.Stream) (machine : Machine Unit)
    (history : Repl.History) (pending : Text) : IO Repl.History := do
  emit (← IO.getStdout) (Repl.promptFor pending)
  match ← nextLine input with
  | some line =>
      match Repl.feed pending (.line line) with
      | .unfinished code => conversation input machine history code
      | .finished code =>
          let (machine, history) ← answerChunk machine history code
          conversation input machine history []
  | none =>
      if pending.isEmpty then
        emit (← IO.getStdout) [Byte.newline]
        return history
      else
        let (machine, history) ← answerChunk machine history pending
        conversation input machine history []

/-- Converse by lines, with the history of earlier conversations. -/
def converseLive : IO UInt32 := do
  let home := (← IO.getEnv "HOME").getD "."
  let historyFile := Text.ofString (home ++ "/") ++ Console.historyName
  let history := ((← fetchFile historyFile).map Repl.History.ofFile).getD {}
  emit (← IO.getStdout) Console.greeting
  let history ← conversation (← IO.getStdin) (Machine.start () {} {}) history []
  match String.fromUTF8? historyFile.toBytes with
  | some path => IO.FS.writeBinFile path history.toFile.toBytes
  | none => pure ()
  return 0

/-- Whether the arguments ask for a conversation with good flags. -/
def asksConversation : List Text → Bool
  | word :: rest =>
      Console.Subcommand.words.lookup word == some .repl &&
        (Console.readFlags [Console.lineFlag] [] rest).toOption.isSome
  | [] => false

end LittleScript

open LittleScript in
/-- Run the command line. -/
def main (arguments : List String) : IO UInt32 := do
  let arguments := arguments.map Text.ofString
  if asksConversation arguments then converseLive
  else
    let readsInput := arguments.contains Console.inputName
    let input ← if readsInput then readAll (← IO.getStdin) [] else pure []
    let directory := Text.ofString (← IO.currentDir).toString
    let seed ← IO.monoNanosNow
    work
      { program := Text.ofString "lil", directory, input, seed := UInt64.ofNat seed }
      arguments
