import LittleScript.Compression.Gzip
import LittleScript.Compression.Zstd
import LittleScript.Storage.FileSystem

namespace LittleScript.Storage

/-!
# Reading and storing texts in files

The ending of a file's name, in any case, decides whether its content is compressed.
-/

/-- The formats in which a text is kept in a file. -/
inductive Format where
  | plain
  | gzip
  | zstd
  deriving Repr, DecidableEq

/-- The part of a name from the last point of its last component on. -/
def extension (name : Text) : Text :=
  let last := (name.reverse.takeWhile (· != Byte.slash))
  if last.contains Byte.dot then
    ((last.takeWhile (· != Byte.dot)) ++ [Byte.dot]).reverse
  else []

/-- The format that a name asks for. -/
def Format.ofName (name : Text) : Format :=
  let ending := (extension name).map Byte.toLower
  if ending == Text.ofString ".gz" then .gzip
  else if ending == Text.ofString ".zst" then .zstd
  else .plain

/-- Which operation of the file system failed. -/
inductive Operation where
  | opening
  | reading
  deriving Repr, DecidableEq

/-- Why a file could not be read or stored. -/
inductive StorageError where
  | access (operation : Operation) (name : Text) (problem : PathProblem)
  | defective (defect : Compression.Defect)
  deriving Repr, DecidableEq

/-- The wording of an error. -/
def StorageError.message : StorageError → Text
  | .access operation name problem =>
      Text.ofString (match operation with | .opening => "open " | .reading => "read ") ++ name ++
        Text.ofString ": " ++ problem.message
  | .defective defect => defect.message

/-- The text that a file content stands for in a format. -/
def decode (format : Format) (content : Text) : Except Compression.Defect Text :=
  match format with
  | .plain => .ok content
  | .gzip => Compression.Gzip.read content
  | .zstd => Compression.Zstd.read content

/-- The file content that stands for a text in a format. -/
def encode (format : Format) (text : Text) : Text :=
  match format with
  | .plain => text
  | .gzip => Compression.Gzip.write text
  | .zstd => Compression.Zstd.write text

/-- Read what was found under a name. -/
def readFound (name : Text) (found : Except PathProblem FileSystem.Entry) :
    Except StorageError Text :=
  match found with
  | .error problem => .error (.access .opening name problem)
  | .ok (.file _ content) =>
      match decode (.ofName name) content with
      | .ok text => .ok text
      | .error defect => .error (.defective defect)
  | .ok _ => .error (.access .reading name .isDirectory)

/-- Read the text of a file. -/
def read (system : FileSystem) (name : Text) : Except StorageError Text :=
  readFound name (system.find name)

/-- Store a text in a file, which is created or replaced. -/
def store (system : FileSystem) (name text : Text) : Except StorageError FileSystem :=
  match system.creationPath name with
  | .error problem => .error (.access .opening name problem)
  | .ok path => .ok (system.write path (encode (.ofName name) text))

end LittleScript.Storage
