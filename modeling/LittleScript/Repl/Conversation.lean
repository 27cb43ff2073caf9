import LittleScript.Repl.Chunk
import LittleScript.Script.Host
import LittleScript.Text.Trim

namespace LittleScript.Repl

/-!
# Conversations by lines

Every chunk that is not blank is evaluated, and its result or its error is written on a line of its
own.  A conversation consists of one round for each chunk and a last round at the end of the input.
-/

/-- What happened around one chunk. -/
structure Round where
  prompts : List Text
  /-- What is to be remembered of the input. -/
  remembered : Option Text
  output : Text
  deriving Repr, DecidableEq

/-- Write a line to the output of a machine. -/
def writeLine {σ : Type} (machine : Machine σ) (line : Text) : Machine σ :=
  { machine with world := machine.world.write (line ++ [Byte.newline]) }

/-- Evaluate code and write its error, or its value unless that is empty. -/
def evaluateAndShow {σ : Type} (machine : Machine σ) (code : Text) : Machine σ :=
  match machine.evaluate code with
  | (.finished ⟨_, some failure⟩, after) => writeLine after failure.describe
  | (.finished ⟨value, none⟩, after) => if value.isEmpty then after else writeLine after value
  | (.stopped _, after) => after

/-- A chunk as it is remembered: on one line. -/
def Chunk.remembered (chunk : Chunk) : Text :=
  chunk.code.map fun byte => if byte == Byte.newline then Byte.space else byte

/-- Whether there is nothing in a chunk to evaluate. -/
def Chunk.isBlank (chunk : Chunk) : Bool :=
  chunk.code.strip.isEmpty

/-- Evaluate one chunk. -/
def converseOnce {σ : Type} (machine : Machine σ) (chunk : Chunk) : Round × Machine σ :=
  if chunk.isBlank then (⟨chunk.prompts, none, []⟩, machine)
  else
    let after := evaluateAndShow machine chunk.code
    (⟨chunk.prompts, some chunk.remembered, after.world.output⟩,
      { after with world := { after.world with written := [] } })

/-- Evaluate chunks one after the other, and ask once more at the end of the input. -/
def converse {σ : Type} (machine : Machine σ) : List Chunk → List Round × Machine σ
  | [] => ([⟨[mainPrompt], none, [Byte.newline]⟩], machine)
  | chunk :: rest =>
      let (round, after) := converseOnce machine chunk
      let (rounds, last) := converse after rest
      (round :: rounds, last)

/-- What a user sees of a conversation. -/
def transcript (rounds : List Round) : Text :=
  rounds.flatMap fun round => round.prompts.flatten ++ round.output

end LittleScript.Repl
