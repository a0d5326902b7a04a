import ConsoleShell.Flag.Basic
import ConsoleShell.Text.Blank
import ConsoleShell.Text.LowerCase
/-! A schema is a list of flags that fit together: no name is declared twice, only string flags
limit their values to choices, rivals are declared flags, and defaults are values of their kind. -/
namespace ConsoleShell

inductive SchemaError where
  | duplicateName (name : Text)
  | invalidDefault (flag value : Text) (reason : FlagError)
  | unknownConflict (flag other : Text)
  | choicesOnNonString (flag : Text)
  deriving DecidableEq, Repr

def SchemaError.message : SchemaError → Text
  | .duplicateName name => "Flag name or alias '" ++ name ++ "' is declared more than once."
  | .invalidDefault flag value reason =>
    "Flag '--" ++ flag ++ "' has an invalid default '" ++ value ++ "': " ++ reason.message
  | .unknownConflict flag other =>
    "Flag '--" ++ flag ++ "' conflicts with undeclared flag '--" ++ other ++ "'."
  | .choicesOnNonString flag =>
    "Flag '--" ++ flag ++ "' declares choices but is not a string flag."

def Flag.cast (f : Flag) (typed : Text) : Except FlagError FlagValue :=
  match f.kind with
  | .string =>
    match f.choices with
    | none => .ok (.text (Markup.escape typed))
    | some allowed =>
      if typed ∈ allowed then .ok (.text (Markup.escape typed))
      else .error (.invalidChoice f.name typed allowed)
  | .number =>
    match (Double.read? (Text.trim typed)).filter Double.isFinite with
    | some n => .ok (.number n)
    | none => .error (.invalidNumber f.name typed)
  | .boolean =>
    let word := Text.lower (Text.trim typed)
    .ok (.boolean (word == "true" || word == "1"))

/-- Each flag stands beside its value when it is not given. -/
structure Schema where
  entries : List (Flag × Option FlagValue) := []
  deriving DecidableEq, Repr

namespace Schema

def empty : Schema := {}

def flags (s : Schema) : List Flag := s.entries.map Prod.fst

def firstRepeated (seen : List Text) : List Text → Option Text
  | [] => none
  | name :: rest => if name ∈ seen then some name else firstRepeated (name :: seen) rest

def findFlag? (flags : List Flag) (name : Text) : Option Flag :=
  flags.find? fun f => name ∈ f.names

def settleConflicts (flags : List Flag) (f : Flag) : Except SchemaError Flag := do
  if f.choices.isSome && f.kind != .string then throw (.choicesOnNonString f.name)
  let conflicts ← f.conflicts.mapM fun other =>
    match findFlag? flags other with
    | some rival => .ok rival.name
    | none => .error (.unknownConflict f.name other)
  return { f with conflicts }

/-- The value of a flag that is not given. A switch without a default is off. -/
def initialValue (f : Flag) : Except SchemaError (Option FlagValue) :=
  match f.default with
  | none => .ok (if f.kind = .boolean then some (.boolean false) else none)
  | some typed =>
    match f.cast typed with
    | .ok value => .ok (some value)
    | .error reason => .error (.invalidDefault f.name typed reason)

def build (flags : List Flag) : Except SchemaError Schema := do
  match firstRepeated [] (flags.flatMap Flag.names) with
  | some name => throw (.duplicateName name)
  | none => pure ()
  let settled ← flags.mapM (settleConflicts flags)
  let values ← settled.mapM initialValue
  return ⟨settled.zip values⟩

def resolve? (s : Schema) (key : Text) : Option Flag := findFlag? s.flags (Flag.dropDashes key)

end Schema

end ConsoleShell
