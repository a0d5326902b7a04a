import ConsoleShell.Job
import ConsoleShell.Request
import ConsoleShell.Token
import ConsoleShell.Flag.Basic
/-! Why a command ends without success, and why a line does. -/
namespace ConsoleShell

inductive Failure where
  | cancelled
  | input (error : InputError)
  | job (error : JobError)
  | unknownColor (name : Text)
  | invalidDuration (typed : Text)
  | stepsOutOfRange
  | invalidDelay
  | invalidDice (typed : Text)
  | diceCountOutOfRange
  | diceSidesOutOfRange
  | invalidVariableName (typed : Text)
  | noSuchVariable (name : Text)
  | invalidAliasName (typed : Text)
  | aliasWithoutTarget (name : Text)
  | noSuchAlias (name : Text)
  | unaliasWithoutNames
  | noHelp (name : Text)
  | neitherOnNorOff (typed : Text)
  /-- An error of a command's own, the outermost message first. -/
  | other (message : Text) (causes : List Text)
  deriving DecidableEq, Repr

namespace Failure

def headline : Failure → Text
  | cancelled => "Operation was cancelled."
  | input error => error.message
  | job error => error.message
  | unknownColor name => "Unknown color: '" ++ name ++ "'"
  | invalidDuration typed => "invalid duration '" ++ typed ++ "'"
  | stepsOutOfRange => "--steps must be a whole number from 1 to 1000"
  | invalidDelay => "--delay must be a non-negative number of milliseconds"
  | invalidDice typed => "invalid dice '" ++ typed ++ "' (expected NdM, e.g. 3d6)"
  | diceCountOutOfRange => "dice count must be between 1 and 100"
  | diceSidesOutOfRange => "dice sides must be between 2 and 1000"
  | invalidVariableName typed => "'" ++ typed ++ "' is not a valid variable name"
  | noSuchVariable name => name ++ ": no such session variable"
  | invalidAliasName typed => "invalid alias name '" ++ typed ++ "'"
  | aliasWithoutTarget name => "alias '" ++ name ++ "' needs a target"
  | noSuchAlias name => name ++ ": not found"
  | unaliasWithoutNames => "usage: unalias NAME..."
  | noHelp name => "no help for '" ++ name ++ "'"
  | neitherOnNorOff typed => "expected 'on' or 'off', got '" ++ typed ++ "'"
  | other message _ => message

def message (f : Failure) : Text :=
  match f with
  | other message causes => Text.join ": " (message :: causes)
  | _ => f.headline

end Failure

inductive LineError where
  | words (error : TokenError)
  | arguments (error : FlagError)
  | commandNotFound (name : Text)
  | command (name : Text) (failure : Failure)
  deriving DecidableEq, Repr

def LineError.message : LineError → Text
  | .words error => error.message
  | .arguments error => error.message
  | .commandNotFound name => "CommandNotFound: " ++ name
  | .command name failure => name ++ ": " ++ failure.message

end ConsoleShell
