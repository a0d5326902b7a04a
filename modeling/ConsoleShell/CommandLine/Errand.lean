import ConsoleShell.Output.Terminal
import ConsoleShell.Shell.Control
/-! A single line that is run to its end. What it prints is shown when it has ended. -/
namespace ConsoleShell.CommandLine

structure Errand where
  shell : Shell
  session : SessionId
  task : TaskId

namespace Errand

def start (shell : Shell) (line : Text) : Errand :=
  let (session, shell) := shell.openSession
  let (task, shell) := shell.subscribe.execute session line none
  { shell := shell.settle, session, task }

def outcome? (e : Errand) : Option Outcome := e.shell.outcome? e.task

def written (e : Errand) (ansi : Bool) : Text :=
  let terminal : Terminal := ⟨e.session, ansi, ansi, none⟩
  (terminal.applyAll e.shell.takeEvents.1).1

def report (e : Errand) (ansi : Bool) : Outcome → Text × Nat
  | .ok => (e.written ansi, 0)
  | .failed _ => (e.written ansi, 1)
  | .crashed => ([], 101)

end Errand

end ConsoleShell.CommandLine
