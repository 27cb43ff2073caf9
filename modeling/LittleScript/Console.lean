import LittleScript.Console.Flag
import LittleScript.Console.LogLine
import LittleScript.Repl.Conversation
import LittleScript.Repl.History

namespace LittleScript.Console

/-!
# The command line

The first argument chooses what to do: run a script, check the form of a script, or converse by
lines.  Each command reads its flags first and then acts on the surroundings; what it comes to is
the text on both outputs, the files, and how it ended.
-/

/-- What a command finds around it. -/
structure Surroundings where
  /-- The name under which the program was called. -/
  program : Text
  /-- The absolute name of the working directory. -/
  directory : Text
  files : FileSystem := {}
  input : Text := []
  /-- The seed of the random numbers. -/
  seed : UInt64 := 0

/-- Why a command refuses to do its work. -/
inductive Refusal where
  | unknownCommand
  | badFlags (error : FlagError)
  | scriptRequired (command : Text)
  | unreadableScript (error : Storage.StorageError)
  | badConfiguration (error : ConfigurationError)
  | issueFound
  deriving Repr, DecidableEq

/-- The wording of a refusal. -/
def Refusal.message : Refusal → Text
  | .unknownCommand => Text.ofString "invalid command"
  | .badFlags error => error.message
  | .scriptRequired command =>
      Text.ofString "lil " ++ command ++ Text.ofString ": script path required"
  | .unreadableScript error => Text.ofString "read script: " ++ error.message
  | .badConfiguration error => Text.ofString "create interpreter: " ++ error.message
  | .issueFound => Text.ofString "check found 1 issue(s)"

/-- How a command ended. -/
inductive Ending where
  | success
  /-- The script asked for a status other than zero. -/
  | exited (status : Int64)
  | scriptFailed (failure : Failure)
  | stopped (stop : Stop)
  | refused (refusal : Refusal)
  deriving Repr, DecidableEq

/-- What a user is told about an ending, if there is anything to tell. -/
def Ending.message : Ending → Option Text
  | .success => none
  | .exited status => some (Text.ofString "exit status " ++ Integer.text status)
  | .scriptFailed failure => some (Text.ofString "execution failed: " ++ failure.describe)
  | .stopped _ => some (Text.ofString "execution stopped")
  | .refused refusal => some refusal.message

/-- What a command came to. -/
structure Result where
  output : Text := []
  errors : Text := []
  log : List LogEntry := []
  files : FileSystem
  ending : Ending

/-- A refusal without any output. -/
def refuse (surroundings : Surroundings) (refusal : Refusal) : Result :=
  { files := surroundings.files, ending := .refused refusal }

/-- The explanation of all commands. -/
def usage (program : Text) : Text :=
  Text.ofString "Usage: " ++ program ++ Text.ofString
    " <command> [flags] [args...]
Commands:
  run [flags] <script|-> [args...]
    evaluate a script; argv and argc hold the remaining arguments
  check <script>
    report unbalanced braces, brackets and quotes without running
  repl [-line]
    start an interactive session
Run flags:
  -debug
    log interpreter activity to stderr
  -max-depth int
    maximum nesting of parse calls (default 1000)
"

/-- The name that means the standard input. -/
def inputName : Text := [Byte.minus]

/-- Read a script by name; a relative name is completed with the working directory. -/
def readScript (surroundings : Surroundings) (name : Text) :
    Except Storage.StorageError Text :=
  if name == inputName then .ok surroundings.input
  else
    let path := (Path.ofName name).clean
    let complete := path.display surroundings.directory
    let found :=
      match FileSystem.admissible complete with
      | .error problem => .error problem
      | .ok () => surroundings.files.resolve path
    Storage.readFound complete found

/-- The statuses that a script asked for, the latest first. -/
structure ExitRequest where
  statuses : List Int64 := []
  deriving Repr, DecidableEq

/-- The status that counts, if a script asked for one. -/
def ExitRequest.status (request : ExitRequest) : Option Int64 :=
  request.statuses.head?

/-- An exit notes the status, zero unless it is an integer, and cancels the running context. -/
def onExit (code : Option Text) (world : World ExitRequest) : World ExitRequest :=
  let status := (code.map fun text => text.toIntD 0).getD 0
  (world.mapHost fun request => ⟨status :: request.statuses⟩).cancel

/-- Run a script with its arguments in the global variables `argv` and `argc`. -/
def runWithArguments (code : Text) (arguments : List Text) :
    Eval ExitRequest Eval.Evaluated := do
  let argv := ListText.write arguments
  let argc := Text.ofNat arguments.length
  let _ ← Eval.setVariable Eval.runCode (Text.ofString "argv") argv .global
  let _ ← Eval.setVariable Eval.runCode (Text.ofString "argc") argc .global
  Eval.evaluateCode .running code

/-- How a run ended: a status that is not negative decides, whatever else happened. -/
def runEnding (request : ExitRequest) (outcome : Outcome Eval.Evaluated) : Ending :=
  match request.status, outcome with
  | some status, outcome =>
      if status = 0 then .success
      else if 0 < status then .exited status
      else evaluationEnding outcome
  | none, outcome => evaluationEnding outcome
where
  /-- How a run ended by its evaluation. -/
  evaluationEnding : Outcome Eval.Evaluated → Ending
    | .finished ⟨_, some failure⟩ => .scriptFailed failure
    | .finished ⟨_, none⟩ => .success
    | .stopped stop => .stopped stop

/-- The switch that shows the debug log. -/
def debugFlag : Flag := ⟨Text.ofString "debug", .switch⟩

/-- The flag that limits nesting. -/
def depthFlag : Flag := ⟨Text.ofString "max-depth", .number⟩

/-- The switch for a conversation by lines. -/
def lineFlag : Flag := ⟨Text.ofString "line", .switch⟩

/-- Run a script that has been read, with the flags and arguments given. -/
def runCode (surroundings : Surroundings) (given : Given) (code : Text)
    (arguments : List Text) : Result :=
  let configuration : Configuration := { evaluations := (given.number depthFlag.name).toInt }
  match configuration.interpreter { exit := some onExit } with
  | .error error => refuse surroundings (.badConfiguration error)
  | .ok interpreter =>
      let machine : Machine ExitRequest :=
        { interpreter
          world :=
            { host := {}
              files := surroundings.files
              randomness := surroundings.seed } }
      let (outcome, after) := machine.perform (runWithArguments code arguments)
      let log := after.world.log
      { output := after.world.output
        errors := if given.isOn debugFlag.name then log.flatMap LogEntry.line else []
        log
        files := after.world.files
        ending := runEnding after.world.host outcome }

/-- Read the flags and the script of a command, and go on with them. -/
def withScript (surroundings : Surroundings) (command : Text) (flags : List Flag)
    (arguments : List Text) (next : Given → Text → Text → List Text → Result) : Result :=
  match readFlags flags [] arguments with
  | .error error => refuse surroundings (.badFlags error)
  | .ok given =>
      match given.arguments with
      | [] => refuse surroundings (.scriptRequired command)
      | name :: rest =>
          match readScript surroundings name with
          | .error error => refuse surroundings (.unreadableScript error)
          | .ok code => next given name code rest

/-- Run a script. -/
def run (surroundings : Surroundings) (arguments : List Text) : Result :=
  withScript surroundings (Text.ofString "run") [debugFlag, depthFlag] arguments
    fun given _ code rest => runCode surroundings given code rest

/-- The line that reports an issue of a script. -/
def issueLine (name code : Text) (error : Source.SyntaxError) : Text :=
  let place := error.place code
  name ++ Byte.colon :: Text.ofNat place.line ++ Byte.colon :: Text.ofNat place.column ++
    Text.ofString ": " ++ error.flaw.message ++ [Byte.newline]

/-- Check the form of a script. -/
def check (surroundings : Surroundings) (arguments : List Text) : Result :=
  withScript surroundings (Text.ofString "check") [] arguments fun _ name code _ =>
    match Source.check code with
    | none =>
        { output := Text.ofString "No issues found\n"
          files := surroundings.files
          ending := .success }
    | some error =>
        { output := issueLine name code error
          files := surroundings.files
          ending := .refused .issueFound }

/-- The name of the file with the history of conversations. -/
def historyName : Text := Text.ofString ".lil_history"

/-- The history that is kept in a file, empty when it cannot be read. -/
def readHistory (files : FileSystem) : Repl.History :=
  match files.find historyName with
  | .ok (.file _ content) => .ofFile content
  | _ => {}

/-- Keep a history in a file, if that is possible. -/
def storeHistory (files : FileSystem) (history : Repl.History) : FileSystem :=
  match files.creationPath historyName with
  | .ok path => files.write path history.toFile
  | .error _ => files

/-- The greeting of a conversation. -/
def greeting : Text :=
  Text.ofString "Little Interpreted Language v" ++ Command.version ++ [Byte.newline]

/-- Converse by lines on the standard input. -/
def converse (surroundings : Surroundings) : Result :=
  let history := readHistory surroundings.files
  let entries := (Repl.inputLines surroundings.input).map fun line => Repl.Entry.line line.text
  let machine := Machine.start () {} surroundings.files
  let (rounds, after) := Repl.converse machine (Repl.chunks entries)
  let entered := rounds.filterMap Repl.Round.remembered
  { output := greeting ++ Repl.transcript rounds
    files := storeHistory after.world.files (entered.foldl Repl.History.remember history)
    ending := .success }

/-- Start a conversation; there is no terminal, so it goes by lines in any case. -/
def repl (surroundings : Surroundings) (arguments : List Text) : Result :=
  match readFlags [lineFlag] [] arguments with
  | .error error => refuse surroundings (.badFlags error)
  | .ok _ => converse surroundings

/-- The commands of the command line. -/
inductive Subcommand where
  | run
  | check
  | repl
  | help
  deriving Repr, DecidableEq

/-- The words for the commands. -/
def Subcommand.words : List (Text × Subcommand) :=
  [("run", .run), ("check", .check), ("repl", .repl), ("help", .help), ("-h", .help),
    ("--help", .help)].map fun (word, subcommand) => (Text.ofString word, subcommand)

/-- Do what the arguments ask for. -/
def execute (surroundings : Surroundings) (arguments : List Text) : Result :=
  let explained (ending : Ending) : Result :=
    { errors := usage surroundings.program, files := surroundings.files, ending }
  match arguments with
  | [] => explained (.refused .unknownCommand)
  | word :: rest =>
      match Subcommand.words.lookup word with
      | some .run => run surroundings rest
      | some .check => check surroundings rest
      | some .repl => repl surroundings rest
      | some .help => explained .success
      | none => explained (.refused .unknownCommand)

end LittleScript.Console
