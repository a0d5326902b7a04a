import ConsoleShell.Command.Basic
import ConsoleShell.Token
/-! The commands that are known and the aliases for the beginnings of lines. An alias is replaced
by the words of its target, again and again, but only so often. -/
namespace ConsoleShell

structure Registry (ρ : Type) where
  commands : Dict Text (Command ρ) := .empty
  aliases : Dict Text Text := .empty

structure AliasResolution where
  command : Text
  arguments : List Text := []
  hops : Nat := 0
  truncated : Bool := false
  deriving DecidableEq, Repr

namespace Alias

def maxHops : Nat := 10

/-- The words of a target; one that cannot be read as a line is cut at its blanks. -/
def targetWords (target : Text) : List Text :=
  match tokenize target with
  | .ok words => words
  | .error _ => Text.words target

/-- Follows the aliases from where `found` stands, at most `remaining` more. A name that was passed
before is the last one. -/
def follow (aliases : Dict Text Text) : Nat → List Text → AliasResolution → AliasResolution
  | remaining, visited, found =>
    match aliases.get? found.command with
    | none => found
    | some target =>
      match remaining with
      | 0 => { found with truncated := true }
      | remaining + 1 =>
        match targetWords target with
        | [] => found
        | head :: rest =>
          let next : AliasResolution :=
            { command := head, arguments := rest ++ found.arguments, hops := found.hops + 1 }
          if head ∈ visited then next else follow aliases remaining (head :: visited) next

def resolve (aliases : Dict Text Text) (name : Text) : AliasResolution :=
  follow aliases maxHops [name] { command := name }

def truncationWarning (name : Text) (r : AliasResolution) : Text :=
  "Alias chain starting at '" ++ name ++ "' exceeds " ++ Text.ofNat maxHops ++
    " hops; using '" ++ r.command ++ "'."

end Alias

namespace Registry

variable {ρ : Type}

def empty : Registry ρ := {}

def register (r : Registry ρ) (d : CommandDeclaration ρ) : Except SchemaError (Bool × Registry ρ) := do
  let command ← Command.ofDeclaration d
  return (r.commands.contains command.name,
    { r with commands := r.commands.insert command.name command })

def replacementWarning (name : Text) : Text :=
  "Command '" ++ name ++ "' was registered again; the previous one was replaced."

def command? (r : Registry ρ) (name : Text) : Option (Command ρ) := r.commands.get? name

def list (r : Registry ρ) (includeHidden : Bool) : List (Command ρ) :=
  (r.commands.entries.map Prod.snd).filter fun c => includeHidden || !c.hidden

def setAlias (r : Registry ρ) (name target : Text) : Registry ρ :=
  { r with aliases := r.aliases.insert name target }

def removeAlias (r : Registry ρ) (name : Text) : Registry ρ :=
  { r with aliases := r.aliases.erase name }

def resolve (r : Registry ρ) (name : Text) : AliasResolution := Alias.resolve r.aliases name

end Registry

end ConsoleShell
