import LittleScript.ListText
import LittleScript.Number
import LittleScript.Session.Recorder

namespace LittleScript.Session

/-!
# Host commands

Commands that a host offers to its scripts.  Each exercises one thing a host can do with the
interpreter that calls it.
-/

/-- The commands of the host. -/
inductive HostCommand where
  /-- Answer the arguments as a list. -/
  | echo
  /-- Answer nothing. -/
  | silent
  /-- Refuse the arguments. -/
  | refuse
  /-- Fail with a message that holds the first argument. -/
  | fail
  /-- Cancel the running context. -/
  | cancel
  /-- Double an integer. -/
  | double
  /-- Run the first argument as code in place, in the second form as the body of a function. -/
  | run (ownResult : Bool)
  /-- Evaluate the first argument as a host does. -/
  | evaluate
  /-- Raise the first argument as an error. -/
  | raise
  /-- Raise the second argument as an error at the offset in the first. -/
  | raiseAt
  /-- Drop the pending error and note it. -/
  | clearError
  | pushFrame
  | popFrame
  /-- Answer how many frames the current one has above it. -/
  | depth
  /-- Answer the name of the function of the current frame. -/
  | caller
  /-- Crash. -/
  | crash
  deriving Repr, DecidableEq

namespace HostCommand

/-- Answer with a text. -/
def answer (text : Text) : HostAction Recorder :=
  .reply (.value text)

/-- Answer twice an integer, wrapping around. -/
def doubled : List Text → HostAction Recorder
  | [argument] =>
      match argument.toInt? with
      | some number => answer (Integer.text (number * 2))
      | none => .reply (.failed (.host { message := Text.ofString "double expects an integer" }))
  | _ => .reply .badArguments

/-- What a command does with its arguments. -/
def action (command : HostCommand) (arguments : List Text) : HostAction Recorder :=
  let first := arguments.headD []
  let second := arguments.tail.headD []
  match command with
  | .echo => answer (ListText.write arguments)
  | .silent => answer []
  | .refuse => .reply .badArguments
  | .fail =>
      .reply (.failed (.host { message := Text.ofString "host failure: " ++ first }))
  | .cancel => .touch World.cancel (answer (Text.ofString "cancelling"))
  | .double => doubled arguments
  | .run ownResult => .run first ownResult answer
  | .evaluate => .evaluate first fun
      | .ok value => answer value
      | .error failure =>
          .reply (.failed (.host { message := failure.describe, wrapped := failure.fatal? }))
  | .raise => .raise first (answer (Text.ofString "after"))
  | .raiseAt => .raiseAt (first.toIntD 0).toInt second (answer [])
  | .clearError => .pendingError fun
      | some error => .touch (noted (.cleared error.text)) (.clearError (answer []))
      | none => .clearError (answer [])
  | .pushFrame => .pushFrame (answer [])
  | .popFrame => .popFrame (answer [])
  | .depth => .frameDepth fun depth => answer (Text.ofNat depth)
  | .caller => .frameFunction fun name => answer (name.getD [])
  | .crash => .crash

end HostCommand

end LittleScript.Session
