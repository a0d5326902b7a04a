import ConsoleShell.Builtin.Aliases
import ConsoleShell.Builtin.Ask
import ConsoleShell.Builtin.Console
import ConsoleShell.Builtin.Dice
import ConsoleShell.Builtin.Echo
import ConsoleShell.Builtin.Help
import ConsoleShell.Builtin.JobControl
import ConsoleShell.Builtin.Sort
import ConsoleShell.Builtin.Time
import ConsoleShell.Builtin.VariableTables
/-! The commands that every shell has. -/
namespace ConsoleShell.Builtin

def all : List Declaration :=
  [«alias», unalias, clear, confirm, echo, env, «export», set, unset, exit, godmode, help, history,
    jobs, fg, kill, progress, read, roll, sleep, sort]

end ConsoleShell.Builtin
