import LittleScript.Table

namespace LittleScript

/-!
# Files and directories

A tree of files under a working directory.  Names are resolved component by component from that
directory, and every way in which this can fail has the wording of the operating system.  What lies
outside the working directory is a place where directories exist and files do not.
-/

/-- Why a name does not lead to what was asked for. -/
inductive PathProblem where
  | missing
  | notDirectory
  | isDirectory
  | invalidName
  | nameTooLong
  deriving Repr, DecidableEq

/-- The wording of a problem. -/
def PathProblem.message : PathProblem → Text
  | .missing => Text.ofString "no such file or directory"
  | .notDirectory => Text.ofString "not a directory"
  | .isDirectory => Text.ofString "is a directory"
  | .invalidName => Text.ofString "invalid argument"
  | .nameTooLong => Text.ofString "file name too long"

/-- A name split at its slashes; a slash behind the last component asks for a directory. -/
structure Path where
  absolute : Bool
  components : List Text
  asksDirectory : Bool := false
  deriving Repr, DecidableEq

namespace Path

/-- The component that names the directory itself. -/
def here : Text := [Byte.dot]

/-- The component that names the directory above. -/
def above : Text := [Byte.dot, Byte.dot]

/-- Split a name. -/
def ofName (name : Text) : Path where
  absolute := name.head? == some Byte.slash
  components := (name.splitAt (· == Byte.slash)).filter fun piece => !piece.isEmpty
  asksDirectory := name.getLast? == some Byte.slash

/-- Remove components that name the same directory and pairs that cancel out. -/
def cleanComponents (absolute : Bool) : List Text → List Text → List Text
  | [], done => done.reverse
  | component :: rest, done =>
      if component == here then cleanComponents absolute rest done
      else if component == above then
        match done with
        | last :: before =>
            if last == above then cleanComponents absolute rest (component :: done)
            else cleanComponents absolute rest before
        | [] =>
            if absolute then cleanComponents absolute rest []
            else cleanComponents absolute rest [component]
      else cleanComponents absolute rest (component :: done)

/-- The shortest path that means the same when every directory on the way exists. -/
def clean (path : Path) : Path :=
  { absolute := path.absolute
    components := cleanComponents path.absolute path.components [] }

/-- The name of a path as seen from a directory with the given name. -/
def display (path : Path) (directory : Text) : Text :=
  let relative := Text.joinWith [Byte.slash] path.components
  if path.absolute then Byte.slash :: relative
  else if relative.isEmpty then directory
  else directory ++ Byte.slash :: relative

end Path

/-- Files with their contents and directories, named relative to the working directory. -/
structure FileSystem where
  files : Table Text := {}
  directories : List Text := []

namespace FileSystem

/-- What a name leads to. -/
inductive Entry where
  | file (path : List Text) (content : Text)
  | directory (path : List Text)
  | outside
  deriving Repr, DecidableEq

/-- The greatest length of a component. -/
def componentLimit : Nat := 255

/-- The name of a path below the working directory. -/
def nameOf (path : List Text) : Text :=
  Text.joinWith [Byte.slash] path

/-- The entry at a path below the working directory. -/
def entry? (system : FileSystem) (path : List Text) : Option Entry :=
  if path.isEmpty then some (.directory [])
  else
    match system.files.get? (nameOf path) with
    | some content => some (.file path content)
    | none =>
        if system.directories.contains (nameOf path) then some (.directory path) else none

/-- Look up one component below a directory; only there does its length matter. -/
def lookUp (system : FileSystem) (path : List Text) (component : Text) :
    Except PathProblem Entry :=
  if componentLimit < component.length then .error .nameTooLong
  else
    match system.entry? (path ++ [component]) with
    | some found => .ok found
    | none => .error .missing

/-- Follow one component from an entry. -/
def follow (system : FileSystem) (entry : Entry) (component : Text) :
    Except PathProblem Entry :=
  match entry with
  | .file _ _ => .error .notDirectory
  | .outside =>
      if component == Path.here || component == Path.above then .ok .outside
      else if componentLimit < component.length then .error .nameTooLong
      else .error .missing
  | .directory path =>
      if component == Path.here then .ok entry
      else if component == Path.above then
        .ok (if path.isEmpty then .outside else .directory path.dropLast)
      else system.lookUp path component

/-- Follow components one after the other. -/
def followAll (system : FileSystem) : List Text → Entry → Except PathProblem Entry
  | [], entry => .ok entry
  | component :: rest, entry =>
      match follow system entry component with
      | .ok next => followAll system rest next
      | .error problem => .error problem

/-- Where the components of a path start. -/
def origin (path : Path) : Entry :=
  if path.absolute then .outside else .directory []

/-- Refuse names that no file can have. -/
def admissible (name : Text) : Except PathProblem Unit :=
  if name.contains 0 then .error .invalidName
  else if name.isEmpty then .error .missing
  else if 4096 ≤ name.length then .error .nameTooLong
  else .ok ()

/-- The entry that a path leads to; nothing but a directory will do for one that asks for it. -/
def resolve (system : FileSystem) (path : Path) : Except PathProblem Entry :=
  let components :=
    if path.asksDirectory then path.components ++ [Path.here] else path.components
  followAll system components (origin path)

/-- The entry that a name leads to. -/
def find (system : FileSystem) (name : Text) : Except PathProblem Entry :=
  match admissible name with
  | .error problem => .error problem
  | .ok () => system.resolve (.ofName name)

/--
The path at which a file would be created or overwritten, from the directory that is to hold it and
its last component.
-/
def creationBelow (system : FileSystem) (holder : Entry) (last : Text) :
    Except PathProblem (List Text) :=
  match holder, system.follow holder last with
  | _, .ok (.file found _) => .ok found
  | _, .ok _ => .error .isDirectory
  | .directory path, .error .missing => .ok (path ++ [last])
  | _, .error problem => .error problem

/--
The path at which a file of this name would be created or overwritten.  A name that asks for a
directory is refused as soon as the directory that holds it is found.
-/
def creationPath (system : FileSystem) (name : Text) : Except PathProblem (List Text) := do
  admissible name
  let path := Path.ofName name
  match path.components.getLast? with
  | none => throw .isDirectory
  | some last =>
      let holder ← system.resolve
        { absolute := path.absolute, components := path.components.dropLast }
      match holder with
      | .file _ _ => throw .notDirectory
      | _ => if path.asksDirectory then throw .isDirectory else system.creationBelow holder last

/-- Put content at a path, replacing what was there. -/
def write (system : FileSystem) (path : List Text) (content : Text) : FileSystem :=
  { system with files := system.files.insert (nameOf path) content }

/-- Add a directory with all directories above it. -/
def addDirectories (system : FileSystem) (path : List Text) : FileSystem :=
  let names := (List.range path.length).map fun count => nameOf (path.take (count + 1))
  { system with
    directories := names.foldl
      (fun known name => if known.contains name then known else name :: known)
      system.directories }

/-- Add a file by name, with all directories above it. -/
def add (system : FileSystem) (name content : Text) : FileSystem :=
  let path := (Path.ofName name).clean.components
  (system.addDirectories path.dropLast).write path content

end FileSystem

end LittleScript
