import LittleScript.Text

namespace LittleScript

/-!
# The built-in commands

The commands that every interpreter starts with, and the names they start with.
-/

/-- A built-in command. -/
inductive Builtin where
  | reflect
  | defineFunction
  | rename
  | unusedName
  | setVariable
  | declareLocal
  | evaluate
  | upEvaluate
  | downEvaluate
  | topEvaluate
  | isolatedEvaluate
  | jailEvaluate
  | returnValue
  | setResult
  | catcher
  | watch
  | expression
  | increment
  | decrement
  | conditional
  | whileLoop
  | forLoop
  | forEach
  | attempt
  | raise
  | exit
  | print
  | write
  | read
  | store
  | source
  | list
  | count
  | index
  | indexOf
  | append
  | slice
  | filter
  | mapNames
  | concat
  | substitute
  | split
  | quote
  | length
  | char
  | charAt
  | codeAt
  | substring
  | position
  | trim
  | trimLeft
  | trimRight
  | compare
  | equal
  | replace
  | random
  deriving Repr, DecidableEq

namespace Builtin

/-- The name under which a command is first known. -/
def spelling : Builtin → String
  | .reflect => "reflect"
  | .defineFunction => "func"
  | .rename => "rename"
  | .unusedName => "unusedname"
  | .setVariable => "set"
  | .declareLocal => "local"
  | .evaluate => "eval"
  | .upEvaluate => "upeval"
  | .downEvaluate => "downeval"
  | .topEvaluate => "topeval"
  | .isolatedEvaluate => "enveval"
  | .jailEvaluate => "jaileval"
  | .returnValue => "return"
  | .setResult => "result"
  | .catcher => "catcher"
  | .watch => "watch"
  | .expression => "expr"
  | .increment => "inc"
  | .decrement => "dec"
  | .conditional => "if"
  | .whileLoop => "while"
  | .forLoop => "for"
  | .forEach => "foreach"
  | .attempt => "try"
  | .raise => "error"
  | .exit => "exit"
  | .print => "print"
  | .write => "write"
  | .read => "read"
  | .store => "store"
  | .source => "source"
  | .list => "list"
  | .count => "count"
  | .index => "index"
  | .indexOf => "indexof"
  | .append => "append"
  | .slice => "slice"
  | .filter => "filter"
  | .mapNames => "lmap"
  | .concat => "concat"
  | .substitute => "subst"
  | .split => "split"
  | .quote => "quote"
  | .length => "length"
  | .char => "char"
  | .charAt => "charat"
  | .codeAt => "codeat"
  | .substring => "substr"
  | .position => "strpos"
  | .trim => "trim"
  | .trimLeft => "ltrim"
  | .trimRight => "rtrim"
  | .compare => "strcmp"
  | .equal => "streq"
  | .replace => "repstr"
  | .random => "rand"

/-- The name of a command as a text. -/
def name (builtin : Builtin) : Text :=
  Text.ofString builtin.spelling

/-- All built-in commands. -/
def all : List Builtin :=
  [.reflect, .defineFunction, .rename, .unusedName, .setVariable, .declareLocal, .evaluate,
    .upEvaluate, .downEvaluate, .topEvaluate, .isolatedEvaluate, .jailEvaluate, .returnValue,
    .setResult, .catcher, .watch, .expression, .increment, .decrement, .conditional, .whileLoop,
    .forLoop, .forEach, .attempt, .raise, .exit, .print, .write, .read, .store, .source, .list,
    .count, .index, .indexOf, .append, .slice, .filter, .mapNames, .concat, .substitute, .split,
    .quote, .length, .char, .charAt, .codeAt, .substring, .position, .trim, .trimLeft, .trimRight,
    .compare, .equal, .replace, .random]

end Builtin

end LittleScript
