import LittleScript.Number.Prefixed
import LittleScript.Text.Quoted

namespace LittleScript.Console

/-!
# Flags

Flags stand before the other arguments of a command.  A flag is written with one or two dashes; its
value follows an equals sign or, unless the flag is a switch, as the next argument.  Two dashes
alone end the flags.
-/

/-- What a flag takes. -/
inductive FlagKind where
  | switch
  | number
  deriving Repr, DecidableEq

/-- A flag that a command knows. -/
structure Flag where
  name : Text
  kind : FlagKind
  deriving Repr, DecidableEq

/-- The value that a flag was given. -/
inductive FlagValue where
  | switch (on : Bool)
  | number (value : Int64)
  deriving Repr, DecidableEq

/-- Why flags are refused. -/
inductive FlagError where
  | badForm (argument : Text)
  | unknown (name : Text)
  | helpRequested
  | missingValue (name : Text)
  | badSwitch (name value : Text)
  | badNumber (name value : Text) (misread : Integer.Misread)
  deriving Repr, DecidableEq

/-- The wording of a refusal. -/
def FlagError.message : FlagError → Text
  | .badForm argument => Text.ofString "bad flag syntax: " ++ argument
  | .unknown name => Text.ofString "flag provided but not defined: -" ++ name
  | .helpRequested => Text.ofString "flag: help requested"
  | .missingValue name => Text.ofString "flag needs an argument: -" ++ name
  | .badSwitch name value =>
      Text.ofString "invalid boolean value " ++ value.quoted ++ Text.ofString " for -" ++ name ++
        Text.ofString ": parse error"
  | .badNumber name value misread =>
      Text.ofString "invalid value " ++ value.quoted ++ Text.ofString " for flag -" ++ name ++
        Text.ofString (match misread with
          | .malformed => ": parse error"
          | .outOfRange => ": value out of range")

/-- What flags were given and the arguments behind them. -/
structure Given where
  /-- Each flag with its value, the latest first. -/
  values : List (Text × FlagValue)
  arguments : List Text
  deriving Repr, DecidableEq

namespace Given

/-- Whether a switch is on; the latest setting counts. -/
def isOn (given : Given) (name : Text) : Bool :=
  given.values.lookup name == some (.switch true)

/-- The number given for a flag, or zero. -/
def number (given : Given) (name : Text) : Int64 :=
  match given.values.lookup name with
  | some (.number value) => value
  | _ => 0

end Given

/-- The words for a switch that is on. -/
def onWords : List Text := ["1", "t", "T", "true", "TRUE", "True"].map Text.ofString

/-- The words for a switch that is off. -/
def offWords : List Text := ["0", "f", "F", "false", "FALSE", "False"].map Text.ofString

/-- Read the value of a switch. -/
def readSwitch (name value : Text) : Except FlagError FlagValue :=
  if onWords.contains value then .ok (.switch true)
  else if offWords.contains value then .ok (.switch false)
  else .error (.badSwitch name value)

/-- Read the value of a number. -/
def readNumber (name value : Text) : Except FlagError FlagValue :=
  match Integer.readMarked value with
  | .ok number => .ok (.number number)
  | .error misread => .error (.badNumber name value misread)

/-- How an argument looks to the flags. -/
inductive Shape where
  /-- Not a flag: the arguments start here. -/
  | argument
  /-- The end of the flags. -/
  | terminator
  | malformed
  | flag (name : Text) (value : Option Text)
  deriving Repr, DecidableEq

/-- Split a flag without its dashes at the first equals sign that is not its first byte. -/
def splitFlag (body : Text) : Shape :=
  let name := body.takeWhile (· != Byte.equal)
  match body.dropWhile (· != Byte.equal) with
  | [] => .flag name none
  | _ :: value => .flag name (some value)

/-- The shape of an argument. -/
def Shape.of : Text → Shape
  | Byte.minus :: Byte.minus :: [] => .terminator
  | Byte.minus :: first :: rest =>
      let body := if first == Byte.minus then rest else first :: rest
      match body.head? with
      | some byte =>
          if byte == Byte.minus || byte == Byte.equal then .malformed else splitFlag body
      | none => .malformed
  | _ => .argument

/-- Whether a name asks for help. -/
def asksHelp (name : Text) : Bool :=
  name == Text.ofString "help" || name == Text.ofString "h"

/-- Read the flags in front of arguments. -/
def readFlags (flags : List Flag) :
    List (Text × FlagValue) → List Text → Except FlagError Given
  | values, [] => .ok ⟨values, []⟩
  | values, argument :: rest =>
      match Shape.of argument with
      | .argument => .ok ⟨values, argument :: rest⟩
      | .terminator => .ok ⟨values, rest⟩
      | .malformed => .error (.badForm argument)
      | .flag name value =>
          match flags.find? (·.name == name), value, rest with
          | none, _, _ => .error (if asksHelp name then .helpRequested else .unknown name)
          | some ⟨_, .switch⟩, value, rest =>
              match readSwitch name (value.getD (Text.ofString "true")) with
              | .ok read => readFlags flags ((name, read) :: values) rest
              | .error error => .error error
          | some ⟨_, .number⟩, some value, rest =>
              match readNumber name value with
              | .ok read => readFlags flags ((name, read) :: values) rest
              | .error error => .error error
          | some ⟨_, .number⟩, none, [] => .error (.missingValue name)
          | some ⟨_, .number⟩, none, value :: after =>
              match readNumber name value with
              | .ok read => readFlags flags ((name, read) :: values) after
              | .error error => .error error

end LittleScript.Console
