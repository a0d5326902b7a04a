import ConsoleShell.Markup
import ConsoleShell.Number.Shortest
/-! Flags and positional arguments as a command declares them, the values flags take, and what
can be wrong with a command line. -/
namespace ConsoleShell

inductive FlagKind where
  | string
  | number
  | boolean
  deriving DecidableEq, Repr

def FlagKind.label : FlagKind → Text
  | .string => "string"
  | .number => "number"
  | .boolean => "boolean"

/-- A value of a flag. Text is escaped for markup. -/
inductive FlagValue where
  | text (value : Text)
  | number (value : Double)
  | boolean (value : Bool)
  deriving DecidableEq, Repr

def FlagValue.display : FlagValue → Text
  | .text value => value
  | .number value => value.display
  | .boolean true => "true"
  | .boolean false => "false"

/-- Names, aliases and rivals are held without leading dashes. -/
structure Flag where
  name : Text
  kind : FlagKind
  aliases : List Text := []
  default : Option Text := none
  required : Bool := false
  choices : Option (List Text) := none
  conflicts : List Text := []
  exclusive : Bool := false
  hidden : Bool := false
  description : Option Text := none
  deriving DecidableEq, Repr

namespace Flag

def dropDashes (name : Text) : Text := name.dropWhile (· = '-')

def ofKind (kind : FlagKind) (name : Text) : Flag := { name := dropDashes name, kind }

def string (name : Text) : Flag := ofKind .string name

def number (name : Text) : Flag := ofKind .number name

def boolean (name : Text) : Flag := ofKind .boolean name

def withAlias (other : Text) (f : Flag) : Flag :=
  { f with aliases := f.aliases ++ [dropDashes other] }

def withDefault (value : Text) (f : Flag) : Flag := { f with default := some value }

def withChoices (allowed : List Text) (f : Flag) : Flag := { f with choices := some allowed }

def withConflict (rival : Text) (f : Flag) : Flag :=
  { f with conflicts := f.conflicts ++ [dropDashes rival] }

def describedAs (text : Text) (f : Flag) : Flag := { f with description := some text }

def names (f : Flag) : List Text := f.name :: f.aliases

end Flag

structure Positional where
  name : Text
  required : Bool := false
  variadic : Bool := false
  description : Option Text := none
  deriving DecidableEq, Repr

/-- What is wrong with the arguments of a command. Values are held as they were typed. -/
inductive FlagError where
  | unknownFlag (typed : Text)
  | missingRequired (flag : Text)
  | missingValue (flag : Text)
  | booleanWithValue (flag : Text)
  | invalidNumber (flag value : Text)
  | invalidChoice (flag value : Text) (allowed : List Text)
  | conflict (flag rival : Text)
  | exclusiveWithPositional (flag : Text)
  | groupedNonBoolean (letter group : Text)
  | missingPositional (name : Text)
  deriving DecidableEq, Repr

def FlagError.message : FlagError → Text
  | .unknownFlag typed => "FlagError: unknown flag '" ++ typed ++ "'"
  | .missingRequired flag => "FlagError: missing required flag '--" ++ flag ++ "'"
  | .missingValue flag => "FlagError: flag '--" ++ flag ++ "' requires a value"
  | .booleanWithValue flag =>
    "FlagError: boolean flag '--" ++ flag ++ "' does not take a value"
  | .invalidNumber flag value =>
    "FlagError: flag '--" ++ flag ++ "' expects a number, got '" ++ value ++ "'"
  | .invalidChoice flag value allowed =>
    "FlagError: flag '--" ++ flag ++ "' does not accept '" ++ value ++ "' (allowed: " ++
      Text.join ", " allowed ++ ")"
  | .conflict flag rival =>
    "FlagError: flags '--" ++ flag ++ "' and '--" ++ rival ++ "' cannot be used together"
  | .exclusiveWithPositional flag =>
    "FlagError: flag '--" ++ flag ++ "' cannot be combined with positional arguments"
  | .groupedNonBoolean letter group =>
    "FlagError: flag '-" ++ letter ++ "' in group '-" ++ group ++
      "' takes a value and cannot be grouped"
  | .missingPositional name => "FlagError: missing required argument <" ++ name ++ ">"

end ConsoleShell
