import ConsoleShell.Shell.Dispatch
/-! The order in which tasks run. One task at a time goes on until it ends or waits again; when no
task can go on, the clock jumps to the next moment that a sleeping one waits for. -/
namespace ConsoleShell.Shell

def look (s : Shell) (id : TaskId) (job : JobId) : Shell :=
  match s.jobs.watch job with
  | (.running, watch) => s.suspend id (.watcher watch)
  | (found, _) => s.recordSighting id found

def resume (tie : Tie) (s : Shell) (id : TaskId) : Shell :=
  match s.tasks.lookup id with
  | none => s.withdraw id
  | some task =>
    if s.canMove task then
      let rest := s.withdraw id
      match task with
      | .line session text piped => rest.startLine id session text piped
      | .job session job signal text piped => rest.dispatch id session (.job job signal) text piped
      | .program c program => leave id c (perform c fullTurn program rest)
      | .waiting c wait => leave id c (goOn tie c wait rest)
      | .watcher watch => rest.look id watch.job
    else { s with ready := s.ready.filter fun other => !decide (other = id) }

def fullRound : Nat := 61

/-- A round is over: the tasks that stand aside join the queue, the last one first. -/
def endRound (s : Shell) : Shell :=
  { s with ready := s.ready ++ s.aside, aside := [], turnCount := 0 }

def takeTurn (s : Shell) : Shell :=
  match s.ready with
  | [] => s
  | id :: _ => resume .event { s with turnCount := s.turnCount + 1 } id

def step (s : Shell) : Shell :=
  let s := s.takeTurn
  if s.ready.isEmpty || fullRound ≤ s.turnCount then s.endRound else s

def steps : Nat → Shell → Shell
  | 0, s => s
  | n + 1, s => if s.ready.isEmpty then s else steps n s.step

/-- No task stands aside more often than this at one moment. -/
def longestMoment : Nat := twoTo 20

/-- More turns than the tasks can have before all of them wait. A line makes at most one job; a task
begins, is asked to stop and has what it waits for once each; it looks again at most as often as
jobs are settled; and it stands aside no more often than any task does. -/
def turns (s : Shell) : Nat :=
  let tasks := s.tasks.length
  2 * tasks * (tasks + (s.jobs.list true).length + 3 + longestMoment)

def settle (s : Shell) : Shell := steps s.turns { s with turnCount := 0 }

def nextDue? (s : Shell) : Option Nat :=
  (s.tasks.filterMap fun
    | (_, .waiting _ (.sleep due _ _)) => if s.clock < due then some due else none
    | _ => none).min?

def moveTo (s : Shell) (time : Nat) : Shell := (wake { s with clock := time }).settle

/-- Moves the clock from moment to moment until something holds, or else to the limit. Every move
takes up at least a millisecond of what is left. -/
def runUntil (stop : Shell → Bool) (limit : Nat) : Nat → Shell → Shell
  | 0, s => s
  | left + 1, s =>
    if stop s then s
    else match s.nextDue? with
      | some due =>
        if due < limit then runUntil stop limit left (s.moveTo due) else s.moveTo limit
      | none => s.moveTo limit

def pass (s : Shell) (milliseconds : Nat) : Shell :=
  runUntil (fun _ => false) (s.clock + milliseconds) (milliseconds + 1) s.settle

def passUntil (s : Shell) (stop : Shell → Bool) (milliseconds : Nat) : Bool × Shell :=
  let limit := s.clock + milliseconds
  let s := runUntil stop limit (milliseconds + 1) s.settle
  (decide (s.clock < limit), s)

end ConsoleShell.Shell
