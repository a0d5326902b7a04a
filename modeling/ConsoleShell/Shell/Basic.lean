import ConsoleShell.Command.Registry
import ConsoleShell.Config.Basic
import ConsoleShell.Output.Console
import ConsoleShell.Shell.Task
/-! The shell: everything that sessions share, everything that each has to itself, and the tasks
that are under way. A task that could go on stands in a queue; whatever happens puts there the tasks
that waited for it, in the order in which they began to wait. A task that has had a full turn
stands aside until the end of the round. -/
namespace ConsoleShell

structure Session where
  store : Variables
  history : List Text := []
  deriving DecidableEq, Repr

structure Echo where
  session : SessionId
  job : Option JobId
  text : Text
  deriving DecidableEq, Repr

structure Shell where
  config : Config
  registry : Registry Handler := .empty
  scopes : Scopes Echo := .empty
  jobs : Jobs Echo := .empty
  requests : Requests := .empty
  console : Console := .empty
  sessions : Dict SessionId Session := .empty
  sessionCount : Nat := 0
  godMode : Bool := false
  exits : List SessionId := []
  /-- In the order in which they came, or began to wait again. -/
  tasks : List (TaskId × Shell.Task) := []
  taskCount : Nat := 0
  ready : List TaskId := []
  /-- The tasks that stand aside until the round is over, the last one first. -/
  aside : List TaskId := []
  turnCount : Nat := 0
  outcomes : List (TaskId × Outcome) := []
  sightings : List (TaskId × Sighting) := []
  /-- Milliseconds of the clock that sleeping tasks go by. -/
  clock : Nat := 0
  /-- Milliseconds of the wall clock, by which jobs are timed. -/
  wall : Nat := 0
  /-- The numbers that the dice are about to show, before they are brought to their sides. They come from
  outside and may be any. -/
  dice : Nat → Nat := fun _ => 0

namespace Shell

def setConsole {α : Type} (s : Shell) (change : α × Console) : α × Shell :=
  (change.1, { s with console := change.2 })

def setJobs {α : Type} (s : Shell) (change : α × Jobs Echo) : α × Shell :=
  (change.1, { s with jobs := change.2 })

def isOpen (s : Shell) (session : SessionId) : Bool := s.sessions.contains session

def store (s : Shell) (session : SessionId) : Variables :=
  ((s.sessions.get? session).map Session.store).getD {}

def history (s : Shell) (session : SessionId) : List Text :=
  ((s.sessions.get? session).map Session.history).getD []

def onSession (s : Shell) (session : SessionId) (change : Session → Session) : Shell :=
  { s with sessions := s.sessions.modify session change }

def onStore (s : Shell) (session : SessionId) (change : Variables → Variables) : Shell :=
  s.onSession session fun data => { data with store := change data.store }

def isCancelled (s : Shell) : Origin → Bool
  | .foreground scope => s.scopes.signals.isFired scope.signal
  | .job _ signal => s.jobs.signals.isFired signal

def hasHappened (s : Shell) : Wait → Bool
  | .sleep due _ _ => due ≤ s.clock
  | .line request _ => s.requests.state request != .waiting
  | .answer request _ => s.requests.state request != .waiting
  | .job watch _ => s.jobs.isWoken watch
  | .cancel _ => false

def isInterrupted (s : Shell) : Task → Bool
  | .waiting invocation _ => s.isCancelled invocation.origin
  | _ => false

def canMove (s : Shell) : Task → Bool
  | .waiting invocation wait => s.hasHappened wait || s.isCancelled invocation.origin
  | .watcher watch => s.jobs.isWoken watch
  | _ => true

def enqueue (s : Shell) (test : Task → Bool) : Shell :=
  let woken := s.tasks.filter fun (id, task) =>
    test task && !s.ready.contains id && !s.aside.contains id
  { s with ready := s.ready ++ woken.map Prod.fst }

def wake (s : Shell) : Shell :=
  let s := s.enqueue s.isInterrupted
  s.enqueue s.canMove

/-- A task that waits takes the last place among the tasks. -/
def suspend (s : Shell) (id : TaskId) (task : Task) : Shell :=
  { s with tasks := s.tasks ++ [(id, task)] }

def newTask (s : Shell) : TaskId × Shell :=
  (⟨s.taskCount⟩, { s with taskCount := s.taskCount + 1 })

def spawn (s : Shell) (task : Task) : TaskId × Shell :=
  let (id, s) := s.newTask
  let s := s.suspend id task
  (id, { s with ready := s.ready ++ [id] })

def setAside (s : Shell) (id : TaskId) (task : Task) : Shell :=
  { s.suspend id task with aside := id :: s.aside }

def withdraw (s : Shell) (id : TaskId) : Shell :=
  { s with
    tasks := s.tasks.filter fun (other, _) => !decide (other = id)
    ready := s.ready.filter fun other => !decide (other = id)
    aside := s.aside.filter fun other => !decide (other = id) }

def recordOutcome (s : Shell) (id : TaskId) (outcome : Outcome) : Shell :=
  { s with outcomes := s.outcomes ++ [(id, outcome)] }

def recordSighting (s : Shell) (id : TaskId) (sighting : Sighting) : Shell :=
  { s with sightings := s.sightings ++ [(id, sighting)] }

end Shell

end ConsoleShell
