import LittleScript.Source.Checker

namespace LittleScript.Repl

/-!
# Cutting input lines into chunks

A user enters lines.  Lines are collected as long as the code so far is unfinished, and a chunk is
what is then evaluated as a whole.  An interrupt drops what has been collected; the end of the
input gives out what is pending.
-/

/-- What a user enters at a prompt. -/
inductive Entry where
  | line (text : Text)
  | interrupt
  deriving Repr, DecidableEq

/-- The prompt for a fresh chunk. -/
def mainPrompt : Text := Text.ofString "# "

/-- The prompt for the continuation of a chunk. -/
def continuationPrompt : Text := Text.ofString "> "

/-- The prompt that is shown while `pending` has been collected. -/
def promptFor (pending : Text) : Text :=
  if pending.isEmpty then mainPrompt else continuationPrompt

/-- Collect one more line. -/
def collect (pending line : Text) : Text :=
  if pending.isEmpty then line else pending ++ Byte.newline :: line

/-- What one more entry leads to. -/
inductive Progress where
  | unfinished (pending : Text)
  | finished (code : Text)
  deriving Repr, DecidableEq

/-- Take one more entry. -/
def feed (pending : Text) : Entry → Progress
  | .interrupt => .finished []
  | .line text =>
      let code := collect pending text
      if Source.isIncomplete code then .unfinished code else .finished code

/-- Code to be evaluated as a whole, with the prompts that were shown for it. -/
structure Chunk where
  prompts : List Text
  code : Text
  deriving Repr, DecidableEq

/-- Cut entries into chunks; `prompts` are those shown for the pending lines, in reverse. -/
def chunksFrom : List Text → Text → List Entry → List Chunk
  | prompts, pending, [] =>
      if pending.isEmpty then [] else [⟨(promptFor pending :: prompts).reverse, pending⟩]
  | prompts, pending, entry :: rest =>
      let shown := promptFor pending :: prompts
      match feed pending entry with
      | .unfinished code => chunksFrom shown code rest
      | .finished code => ⟨shown.reverse, code⟩ :: chunksFrom [] [] rest

/-- The chunks of all that a user enters before the end of the input. -/
def chunks (entries : List Entry) : List Chunk :=
  chunksFrom [] [] entries

end LittleScript.Repl
