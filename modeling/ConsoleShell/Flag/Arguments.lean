import ConsoleShell.Flag.Schema
import ConsoleShell.Dict
/-! Reading the words after a command name. The scan goes from left to right, one word at a time;
a flag that takes a value may wait for the next word. Afterwards the flags that are present are
checked against each other and against the positional arguments. -/
namespace ConsoleShell

structure FlagState where
  value : Option FlagValue
  given : Bool
  deriving DecidableEq, Repr

/-- Every declared flag has a state; positional arguments are escaped for markup. -/
structure Arguments where
  flags : Dict Text FlagState := .empty
  positionals : List Text := []
  deriving DecidableEq, Repr

namespace Arguments

def raw (words : List Text) : Arguments := { positionals := words.map Markup.escape }

def value? (a : Arguments) (name : Text) : Option FlagValue :=
  (a.flags.get? name).bind FlagState.value

def text? (a : Arguments) (name : Text) : Option Text :=
  match a.value? name with
  | some (.text value) => some value
  | _ => none

def number? (a : Arguments) (name : Text) : Option Double :=
  match a.value? name with
  | some (.number value) => some value
  | _ => none

def isOn (a : Arguments) (name : Text) : Bool := a.value? name = some (.boolean true)

def isGiven (a : Arguments) (name : Text) : Bool :=
  ((a.flags.get? name).map FlagState.given).getD false

def given (a : Arguments) : List Text := (a.flags.keep FlagState.given).keys

end Arguments

structure Awaiting where
  flag : Flag
  short : Bool
  deriving DecidableEq, Repr

structure ArgumentScan where
  flags : Dict Text FlagState
  positionals : List Text := []
  awaiting : Option Awaiting := none
  closed : Bool := false
  deriving DecidableEq, Repr

namespace ArgumentScan

def start (schema : Schema) : ArgumentScan :=
  { flags := Dict.ofList (schema.entries.map fun (f, value) => (f.name, ⟨value, false⟩)) }

def record (s : ArgumentScan) (f : Flag) (value : FlagValue) : ArgumentScan :=
  { s with flags := s.flags.insert f.name ⟨some value, true⟩, awaiting := none }

def addPositional (s : ArgumentScan) (word : Text) : ArgumentScan :=
  { s with positionals := s.positionals ++ [Markup.escape word] }

def await (s : ArgumentScan) (f : Flag) (short : Bool) : ArgumentScan :=
  { s with awaiting := some ⟨f, short⟩ }

def find (schema : Schema) (dashes name : Text) : Except FlagError Flag :=
  match schema.resolve? name with
  | some f => .ok f
  | none => .error (.unknownFlag (dashes ++ name))

/-- A value for the flag that waits. A short flag takes no word with a dash in front. -/
def takeValue (s : ArgumentScan) (a : Awaiting) (word : Text) : Except FlagError ArgumentScan := do
  if a.short && ['-'].isPrefixOf word then throw (.missingValue a.flag.name)
  return s.record a.flag (← a.flag.cast word)

def takeLong (schema : Schema) (s : ArgumentScan) (body : Text) : Except FlagError ArgumentScan := do
  let (name, inline) := match Text.cut? '=' body with
    | some (name, value) => (name, some value)
    | none => (body, none)
  let f ← find schema "--" name
  match f.kind, inline with
  | .boolean, some _ => throw (.booleanWithValue f.name)
  | .boolean, none => return s.record f (.boolean true)
  | _, some typed => return s.record f (← f.cast typed)
  | _, none => return s.await f false

def takeShort (schema : Schema) (s : ArgumentScan) (letter : Char) : Except FlagError ArgumentScan := do
  let f ← find schema ['-'] [letter]
  return if f.kind = .boolean then s.record f (.boolean true) else s.await f true

def takeGrouped (schema : Schema) (group : Text) (s : ArgumentScan) (letter : Char) :
    Except FlagError ArgumentScan := do
  let f ← find schema ['-'] [letter]
  if f.kind != .boolean then throw (.groupedNonBoolean [letter] group)
  return s.record f (.boolean true)

def step (schema : Schema) (s : ArgumentScan) (word : Text) : Except FlagError ArgumentScan :=
  if s.closed then .ok (s.addPositional word)
  else match s.awaiting with
    | some a => s.takeValue a word
    | none =>
      match word with
      | ['-', '-'] => .ok { s with closed := true }
      | '-' :: '-' :: body => s.takeLong schema body
      | ['-', letter] => s.takeShort schema letter
      | '-' :: first :: rest => (first :: rest).foldlM (takeGrouped schema (first :: rest)) s
      | _ => .ok (s.addPositional word)

def finish (s : ArgumentScan) : Except FlagError Arguments :=
  match s.awaiting with
  | some a => .error (.missingValue a.flag.name)
  | none => .ok ⟨s.flags, s.positionals⟩

end ArgumentScan

namespace Arguments

def brokenFlagRule? (a : Arguments) (flags : List Flag) : Option FlagError :=
  (flags.findSome? fun f =>
      if f.required && !a.isGiven f.name then some (.missingRequired f.name) else none).or <|
    (flags.filter fun f => a.isGiven f.name).findSome? fun f =>
      match f.conflicts.find? a.isGiven with
      | some rival => some (.conflict f.name rival)
      | none =>
        if f.exclusive && !a.positionals.isEmpty then some (.exclusiveWithPositional f.name)
        else none

def missingPositional? (a : Arguments) (flags : List Flag) (declared : List Positional) :
    Option FlagError :=
  if flags.any fun f => f.exclusive && a.isGiven f.name then none
  else (declared.drop a.positionals.length).findSome? fun p =>
    if p.required then some (.missingPositional p.name) else none

def check (schema : Schema) (declared : List Positional) (a : Arguments) :
    Except FlagError Arguments :=
  match (a.brokenFlagRule? schema.flags).or (a.missingPositional? schema.flags declared) with
  | some error => .error error
  | none => .ok a

def parse (schema : Schema) (declared : List Positional) (words : List Text) :
    Except FlagError Arguments := do
  let scan ← words.foldlM (ArgumentScan.step schema) (ArgumentScan.start schema)
  check schema declared (← scan.finish)

end Arguments

end ConsoleShell
