import ConsoleShell.Command.Basic
import ConsoleShell.Failure
import ConsoleShell.Number.Duration
import ConsoleShell.Variable.Store
/-! Programs are what commands do, one action after another. A program says nothing of where its
output goes, whose variables it changes or when it is resumed: that is the shell's part, and so
whatever the shell grants or refuses holds of every command. -/
namespace ConsoleShell

structure View where
  store : Variables
  history : List Text
  aliases : Dict Text Text
  commands : List (Command Unit)
  jobs : List JobSnapshot
  godMode : Bool
  cancelled : Bool
  now : Nat

inductive Change where
  | setVariable (name value : Text)
  | unsetVariable (name : Text)
  | setEnvironment (name value : Text)
  | unsetEnvironment (name : Text)
  | setAlias (name target : Text)
  | removeAlias (name : Text)
  | clearHistory
  | clearFinishedJobs
  | setGodMode (on : Bool)
  | requestExit
  deriving DecidableEq, Repr

inductive Program where
  | finish
  | fail (failure : Failure)
  | crash
  | print (kind : OutputKind) (text : Text) (next : GroupId → Program)
  | update (group : GroupId) (text : Text) (next : Bool → Program)
  | delete (group : GroupId) (next : Bool → Program)
  | clear (next : Program)
  | replay (groups : List Group) (next : Program)
  | inspect (next : View → Program)
  | change (what : Change) (next : Program)
  | kill (job : JobId) (next : Except JobError KillOutcome → Program)
  | roll (sides : Nat) (next : Nat → Program)
  /-- A text to be printed when the command is cancelled. -/
  | onCancel (text : Text) (next : Program)
  | sleep (span : Duration) (stopped next : Program)
  | readLine (next : Text → Program)
  | confirm (message : Text) (next : Bool → Program)
  | awaitJob (job : JobId) (next : JobSnapshot → Program)
  | awaitCancel (next : Program)

namespace Program

def say (text : Text) (next : Program) : Program := .print .output text fun _ => next

def orFail {α : Type} (result : Except Failure α) (next : α → Program) : Program :=
  match result with
  | .ok a => next a
  | .error failure => .fail failure

def forEach {α : Type} (items : List α) (body : α → Program → Program)
    (last : Program) : Program :=
  items.foldr body last

end Program

structure Caller where
  job : Option JobId := none
  piped : Option (List Text) := none
  deriving DecidableEq, Repr

abbrev Handler := Arguments → Caller → Program

abbrev Declaration := CommandDeclaration Handler

end ConsoleShell
