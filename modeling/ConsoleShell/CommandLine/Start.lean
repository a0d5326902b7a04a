import ConsoleShell.Builtin.All
import ConsoleShell.Shell.Control
/-! What the program starts with, and how it ends when it cannot start. -/
namespace ConsoleShell.CommandLine

def newShell (config : Config) : Except SchemaError Shell :=
  Shell.ofDeclarations config Builtin.all

def misuseCode : Nat := 2

def startFailureCode : Nat := 1

end ConsoleShell.CommandLine
