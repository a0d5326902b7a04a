import ConsoleShell.Flag.Arguments
import ConsoleShell.Flag.Usage
/-! Commands: a name, how the words after it are read, and a handler of some kind. -/
namespace ConsoleShell

inductive Reading where
  | raw
  | flags (schema : Schema) (positionals : List Positional)
  deriving DecidableEq, Repr

structure Command (ρ : Type) where
  name : Text
  description : Text
  hidden : Bool
  reading : Reading
  handler : ρ

structure CommandDeclaration (ρ : Type) where
  name : Text
  description : Text := []
  hidden : Bool := false
  flags : Option (List Flag) := some []
  positionals : List Positional := []
  handler : ρ

namespace Command

variable {ρ : Type}

def ofDeclaration (d : CommandDeclaration ρ) : Except SchemaError (Command ρ) :=
  match d.flags with
  | none => .ok ⟨d.name, d.description, d.hidden, .raw, d.handler⟩
  | some flags => do
    let schema ← Schema.build flags
    return ⟨d.name, d.description, d.hidden, .flags schema d.positionals, d.handler⟩

def outline (c : Command ρ) : Command Unit := { c with handler := () }

def parse (c : Command ρ) (words : List Text) : Except FlagError Arguments :=
  match c.reading with
  | .raw => .ok (Arguments.raw words)
  | .flags schema positionals => Arguments.parse schema positionals words

def usage (c : Command ρ) : Text :=
  match c.reading with
  | .raw => c.name ++ " [args]..."
  | .flags schema positionals => schema.usage c.name positionals

def visibleFlags (c : Command ρ) : List Flag :=
  match c.reading with
  | .raw => []
  | .flags schema _ => schema.visibleFlags

end Command

end ConsoleShell
