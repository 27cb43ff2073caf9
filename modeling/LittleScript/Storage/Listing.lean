import LittleScript.Storage

namespace LittleScript.Storage

/-!
# Listing files

A file whose name asks for compression is listed by the format that its first bytes show and by the
text that it reads back as; any other file is listed by its content.
-/

/-- The format that the first bytes of a content show. -/
def Format.ofContent (content : Text) : Format :=
  if [0x1f, 0x8b].isPrefixOf content then .gzip
  else if [0x28, 0xb5, 0x2f, 0xfd].isPrefixOf content then .zstd
  else .plain

/-- What a listing tells about a file. -/
inductive Listed where
  | plain (content : Text)
  /-- The format the content shows and the text, if it can be read. -/
  | compressed (format : Format) (text : Option Text)
  deriving Repr, DecidableEq

/-- What a listing tells about a file of a name with a content. -/
def list (name content : Text) : Listed :=
  match Format.ofName name with
  | .plain => .plain content
  | format => .compressed (.ofContent content) (decode format content).toOption

/-- All files with their names, in bytewise order. -/
def listAll (system : FileSystem) : List (Text × Listed) :=
  system.files.entries.map fun (name, content) => (name, list name content)

/-- What a listing tells about the file that a name leads to. -/
def listNamed? (system : FileSystem) (name : Text) : Option Listed :=
  match system.find name with
  | .ok (.file _ content) => some (list name content)
  | _ => none

end LittleScript.Storage
