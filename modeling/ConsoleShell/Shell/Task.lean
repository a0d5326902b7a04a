import ConsoleShell.Program
import ConsoleShell.Scope
/-! Tasks: the lines that have not begun yet, the commands that wait for something, and the watchers
of jobs. A command waits with the program that it will go on with. -/
namespace ConsoleShell

structure TaskId where
  number : Nat
  deriving DecidableEq, Repr

inductive Origin where
  | foreground (scope : Scope)
  | job (id : JobId) (signal : SignalId)
  deriving DecidableEq, Repr

def Origin.job? : Origin → Option JobId
  | foreground _ => none
  | job id _ => some id

structure Invocation where
  session : SessionId
  origin : Origin
  command : Option Text
  deriving DecidableEq, Repr

inductive Wait where
  | sleep (due : Nat) (stopped next : Program)
  | line (request : RequestId) (next : Text → Program)
  /-- The next line of the session, which is asked for again until it says yes or no. -/
  | answer (request : RequestId) (next : Bool → Program)
  | job (watch : Watch) (next : JobSnapshot → Program)
  | cancel (next : Program)

inductive Shell.Task where
  | line (session : SessionId) (text : Text) (piped : Option (List Text))
  | job (session : SessionId) (id : JobId) (signal : SignalId) (text : Text)
      (piped : Option (List Text))
  | program (invocation : Invocation) (program : Program)
  | waiting (invocation : Invocation) (wait : Wait)
  | watcher (watch : Watch)

inductive Ending where
  | finished
  | failed (failure : Failure)
  | crashed
  deriving DecidableEq, Repr

inductive Halt where
  | ended (ending : Ending)
  | waiting (wait : Wait)
  /-- Others go on before the rest of the program does. -/
  | yielded (rest : Program)

inductive Outcome where
  | ok
  | failed (error : LineError)
  | crashed
  deriving DecidableEq, Repr

def Ending.outcome (command : Text) : Ending → Outcome
  | finished => .ok
  | failed .cancelled => .ok
  | failed failure => .failed (.command command failure)
  | crashed => .crashed

/-- What is recorded of a job whose line has come to an end; a crash is never recorded. -/
def Outcome.jobResult? : Outcome → Option JobResult
  | ok => some .completed
  | failed error => some (.failed error.message)
  | crashed => none

def Ending.jobResult? : Ending → Option JobResult
  | finished => some .completed
  | failed .cancelled => some .cancelled
  | failed failure => some (.failed failure.headline)
  | crashed => none

end ConsoleShell
