import LittleScript.Expression
import LittleScript.Source.Flaw
import LittleScript.Source.Position

namespace LittleScript

/-!
# Errors of evaluation

A script error has a reason and a place in the text of the outermost evaluation.  A fatal error
reports that evaluation was nested too deeply; scripts cannot catch it.
-/

/-- Why a context of evaluation no longer lets commands run. -/
inductive Cancellation where
  | cancelled
  | deadlinePassed
  deriving Repr, DecidableEq

/-- The wording of a cancellation. -/
def Cancellation.message : Cancellation → Text
  | .cancelled => Text.ofString "context canceled"
  | .deadlinePassed => Text.ofString "context deadline exceeded"

/-- Evaluation nested deeper than its limit. -/
structure FatalError where
  limit : Nat
  depth : Nat
  deriving Repr, DecidableEq

namespace FatalError

/-- What went wrong, without the depth. -/
def text (error : FatalError) : Text :=
  Text.ofString "too many recursive calls (limit " ++ Text.ofNat error.limit ++ Text.ofString ")"

/-- The full wording. -/
def describe (error : FatalError) : Text :=
  Text.ofString "fatal: " ++ error.text ++ Text.ofString " (depth " ++ Text.ofNat error.depth ++
    Text.ofString ")"

end FatalError

/-- How a host command failed: its message, and the fatal error that the failure wraps, if any. -/
structure HostError where
  message : Text
  wrapped : Option FatalError := none
  deriving Repr, DecidableEq

/-- Why a script failed. -/
inductive Reason where
  /-- The script or the host raised a message of its own. -/
  | raised (message : Text)
  | unknownCommand (name : Text)
  | unknownFunction (name : Text)
  | malformed (flaw : Source.Flaw)
  | arithmetic (fault : Expression.Fault)
  | catcherLimit (name : Text)
  | cancelled (cause : Cancellation)
  | nestedTooDeep (error : FatalError)
  /-- A host command failed. -/
  | host (error : HostError)
  deriving Repr, DecidableEq

/-- The wording of an arithmetic fault. -/
def Expression.Fault.message : Expression.Fault → Text
  | .notNumeric => Text.ofString "invalid expression"
  | .divisionByZero => Text.ofString "division by zero in expression"
  | .negativeShift => Text.ofString "mixing invalid types in expression"
  | .missingParenthesis => Text.ofString "expression syntax error"

/-- The wording of a reason. -/
def Reason.message : Reason → Text
  | .raised message => message
  | .unknownCommand name => Text.ofString "unknown function " ++ name
  | .unknownFunction name => Text.ofString "unknown function '" ++ name ++ Text.ofString "'"
  | .malformed flaw => flaw.message
  | .arithmetic fault => fault.message
  | .catcherLimit name =>
      Text.ofString "catcher limit reached while trying to call unknown function " ++ name
  | .cancelled cause => Text.ofString "evaluation cancelled: " ++ cause.message
  | .nestedTooDeep error => error.describe
  | .host error => error.message

/-- The fatal error that a reason wraps, if any. -/
def Reason.fatal? : Reason → Option FatalError
  | .nestedTooDeep error => some error
  | .host error => error.wrapped
  | _ => none

/-- A failure of a script, placed in the text of the outermost evaluation. -/
structure ScriptError where
  reason : Reason
  offset : Int
  place : Source.Place
  codeFrame : Text
  deriving Repr, DecidableEq

namespace ScriptError

/-- The error for a reason at an offset of a source text. -/
def locate (reason : Reason) (source : Text) (offset : Int) : ScriptError :=
  let place := Source.place source offset
  { reason, offset, place, codeFrame := Source.codeFrame source place }

/-- What went wrong, without the place. -/
def text (error : ScriptError) : Text :=
  error.reason.message

/-- The full wording: place, reason and code frame. -/
def describe (error : ScriptError) : Text :=
  let position :=
    if error.place.line > 0 then
      Text.ofNat error.place.line ++ [Byte.colon] ++ Text.ofNat error.place.column
    else Text.ofInt error.offset
  let headline := Text.ofString "error at " ++ position ++ Text.ofString ": " ++ error.text
  if error.codeFrame.isEmpty then headline else headline ++ Byte.newline :: error.codeFrame

end ScriptError

/-- How an evaluation can fail for its host. -/
inductive Failure where
  | script (error : ScriptError)
  | fatal (error : FatalError)
  deriving Repr, DecidableEq

/-- The fatal error that a failure is or wraps, if any. -/
def Failure.fatal? : Failure → Option FatalError
  | .script error => error.reason.fatal?
  | .fatal error => some error

/-- The full wording of a failure. -/
def Failure.describe : Failure → Text
  | .script error => error.describe
  | .fatal error => error.describe

end LittleScript
