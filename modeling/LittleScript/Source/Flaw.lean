import LittleScript.Text

namespace LittleScript.Source

/-!
# Flaws of source text

The ways in which text fails to be a script: a construct that is never closed, or a closing byte
that nothing opened.
-/

/-- Why a text is not well formed. -/
inductive Flaw where
  | openComment
  | openBrace
  | openBracket
  | openQuote
  | danglingContinuation
  | strayCloser (byte : UInt8)
  deriving Repr, DecidableEq

namespace Flaw

/-- The wording of a flaw. -/
def message : Flaw → Text
  | .openComment => Text.ofString "unterminated comment"
  | .openBrace => Text.ofString "unterminated brace"
  | .openBracket => Text.ofString "unterminated bracket"
  | .openQuote => Text.ofString "unterminated quoted string"
  | .danglingContinuation => Text.ofString "line continuation at end of input"
  | .strayCloser byte =>
      Text.ofString "unexpected '" ++ [byte] ++ Text.ofString "'"

/-- Whether more text could close what is open. -/
def isIncomplete : Flaw → Bool
  | .strayCloser _ => false
  | _ => true

end Flaw

/--
Find the closer that balances an opener already passed.  The first text of the result is what
stands before it, the second what follows; `inside` is in reverse.
-/
def balanced? (opener closer : UInt8) : Nat → Text → Text → Option (Text × Text)
  | _, [], _ => none
  | depth, byte :: rest, inside =>
      if byte == opener then balanced? opener closer (depth + 1) rest (byte :: inside)
      else if byte == closer then
        match depth with
        | 0 => some (inside.reverse, rest)
        | outer + 1 => balanced? opener closer outer rest (byte :: inside)
      else balanced? opener closer depth rest (byte :: inside)

/-- The text up to the brace that balances one already passed, and the text after it. -/
def bracesEnd? (text : Text) : Option (Text × Text) :=
  balanced? Byte.openBrace Byte.closeBrace 0 text []

/-- The text up to the bracket that balances one already passed, and the text after it. -/
def bracketsEnd? (text : Text) : Option (Text × Text) :=
  balanced? Byte.openBracket Byte.closeBracket 0 text []

end LittleScript.Source
