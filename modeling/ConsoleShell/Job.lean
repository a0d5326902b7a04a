import ConsoleShell.Output.Buffer
import ConsoleShell.Dict
import ConsoleShell.Number.Whole
import ConsoleShell.Signal
import ConsoleShell.Text.Blank
/-! Background jobs. A job runs until it completes, fails or is killed, and then stays as it is.
A kill takes effect at once; what the job's command returns later is passed over. -/
namespace ConsoleShell

inductive JobStatus where
  | running
  | completed
  | failed
  | killed
  deriving DecidableEq, Repr

def JobStatus.label : JobStatus → Text
  | .running => "running"
  | .completed => "completed"
  | .failed => "failed"
  | .killed => "killed"

def JobStatus.isFinal (s : JobStatus) : Bool := s != .running

inductive JobError where
  | notFound (id : JobId)
  | invalidId (typed : Text)
  deriving DecidableEq, Repr

def JobError.message : JobError → Text
  | .notFound id => "JobError: no such job: " ++ id.display
  | .invalidId typed => "JobError: invalid job id '" ++ typed ++ "' (expected N or %N)"

def JobId.read (typed : Text) : Except JobError JobId :=
  let text := Text.trim typed
  let digits := (Text.dropStart? ['%'] text).getD text
  match (Whole.read? (twoTo 64) digits).filter (0 < ·) with
  | some n => .ok ⟨n⟩
  | none => .error (.invalidId typed)

structure Job where
  session : SessionId
  command : Text
  status : JobStatus := .running
  startedAt : Nat
  endedAt : Option Nat := none
  output : Buffer := .empty
  error : Option Text := none
  signal : SignalId
  deriving DecidableEq, Repr

inductive JobResult where
  | completed
  | cancelled
  | failed (error : Text)
  deriving DecidableEq, Repr

def JobResult.status : JobResult → JobStatus
  | .completed => .completed
  | .cancelled => .killed
  | .failed _ => .failed

def JobResult.error? : JobResult → Option Text
  | .failed error => some error
  | _ => none

structure JobSnapshot where
  id : JobId
  session : SessionId
  command : Text
  status : JobStatus
  startedAt : Nat
  endedAt : Option Nat
  output : List Group
  error : Option Text
  deriving DecidableEq, Repr

namespace JobSnapshot

def ofJob (id : JobId) (job : Job) : JobSnapshot :=
  { id, session := job.session, command := job.command, status := job.status,
    startedAt := job.startedAt, endedAt := job.endedAt, output := job.output.groups,
    error := job.error }

def plainLines (s : JobSnapshot) : List Text :=
  (s.output.flatMap Group.lines).map Line.plain

/-- Whole seconds that the job has run, up to now or to its end, less than none if the wall clock was set back;
parts of a second are left out. -/
def elapsed (s : JobSnapshot) (now : Nat) : Int := ((s.endedAt.getD now : Int) - s.startedAt).tdiv 1000

end JobSnapshot

inductive KillOutcome where
  | killed
  | alreadyFinished (status : JobStatus)
  deriving DecidableEq, Repr

/-- The table of jobs. Everybody who waits for a job is woken whenever some job is settled, and
looks again; `notices` counts these occasions. -/
structure Jobs (κ : Type) where
  table : Dict JobId Job := .empty
  signals : Signals κ := .empty
  lastId : Nat := 0
  notices : Nat := 0
  deriving DecidableEq, Repr

/-- Somebody who waits for a job and has looked last before the notice of that number. -/
structure Watch where
  job : JobId
  seen : Nat
  deriving DecidableEq, Repr

inductive Sighting where
  | settled (job : JobSnapshot)
  | missing
  | running
  deriving DecidableEq, Repr

namespace Jobs

variable {κ : Type}

def empty : Jobs κ := {}

def create (j : Jobs κ) (session : SessionId) (command : Text) (now : Nat) : JobId × Jobs κ :=
  let (signal, signals) := j.signals.create
  let id : JobId := ⟨j.lastId + 1⟩
  (id, { j with
    table := j.table.insert id { session, command, startedAt := now, signal }
    signals
    lastId := j.lastId + 1 })

def get? (j : Jobs κ) (id : JobId) : Option JobSnapshot :=
  (j.table.get? id).map (JobSnapshot.ofJob id)

def list (j : Jobs κ) (runningOnly : Bool) : List JobSnapshot :=
  (j.table.entries.filter fun (_, job) => !runningOnly || job.status = .running).map
    fun (id, job) => JobSnapshot.ofJob id job

def settle (j : Jobs κ) (id : JobId) (result : JobResult) (now : Nat) : Jobs κ :=
  match j.table.get? id with
  | none => j
  | some job =>
    if job.status.isFinal then j
    else
      let settled := { job with
        status := result.status, endedAt := some now, error := result.error? }
      { j with table := j.table.insert id settled, notices := j.notices + 1 }

/-- Marks a running job killed; notice is given after its signal has fired. -/
def markKilled (j : Jobs κ) (id : JobId) (now : Nat) : Except JobError KillOutcome × Jobs κ :=
  match j.table.get? id with
  | none => (.error (.notFound id), j)
  | some job =>
    if job.status.isFinal then (.ok (.alreadyFinished job.status), j)
    else
      let killed := { job with status := .killed, endedAt := some now }
      (.ok .killed, { j with table := j.table.insert id killed })

def fire (j : Jobs κ) (signal : SignalId) : List κ × Jobs κ :=
  let (waiting, signals) := j.signals.fire signal
  (waiting.getD [], { j with signals })

def queue (j : Jobs κ) (signal : SignalId) (item : κ) : Jobs κ :=
  { j with signals := j.signals.queue signal item }

def giveNotice (j : Jobs κ) : Jobs κ := { j with notices := j.notices + 1 }

def signal? (j : Jobs κ) (id : JobId) : Option SignalId := (j.table.get? id).map Job.signal

def kill (j : Jobs κ) (id : JobId) (now : Nat) : Except JobError KillOutcome × List κ × Jobs κ :=
  match j.markKilled id now with
  | (.ok .killed, marked) =>
    match marked.signal? id with
    | none => (.ok .killed, [], marked.giveNotice)
    | some signal =>
      let (waiting, fired) := marked.fire signal
      (.ok .killed, waiting, fired.giveNotice)
  | (outcome, same) => (outcome, [], same)

def runningIn (j : Jobs κ) (session : SessionId) : List JobId :=
  (j.table.entries.filter fun (_, job) => job.session = session && job.status = .running).map
    Prod.fst

def clearFinished (j : Jobs κ) : Nat × Jobs κ :=
  let table := j.table.keep fun job => job.status = .running
  (j.table.size - table.size, { j with table })

def look (j : Jobs κ) (id : JobId) : Sighting :=
  match j.get? id with
  | none => .missing
  | some job => if job.status.isFinal then .settled job else .running

def isWoken (j : Jobs κ) (w : Watch) : Bool := w.seen < j.notices

def watch (j : Jobs κ) (id : JobId) : Sighting × Watch := (j.look id, ⟨id, j.notices⟩)

def onOutput {α : Type} (j : Jobs κ) (id : JobId) (change : Buffer → α × Buffer) : Option α × Jobs κ :=
  match j.table.get? id with
  | none => (none, j)
  | some job =>
    let (answer, output) := change job.output
    (some answer, { j with table := j.table.insert id { job with output } })

def print (j : Jobs κ) (id : JobId) (kind : OutputKind) (text : Text) : Option GroupId × Jobs κ :=
  j.onOutput id fun b => b.print kind text

def update (j : Jobs κ) (id : JobId) (group : GroupId) (text : Text) : Bool × Jobs κ :=
  let (outcome, j) := j.onOutput id fun b => b.update group text
  (outcome.any (· != .missing), j)

def delete (j : Jobs κ) (id : JobId) (group : GroupId) : Bool × Jobs κ :=
  let (existed, j) := j.onOutput id fun b => b.delete group
  (existed.getD false, j)

def clearOutput (j : Jobs κ) (id : JobId) : Jobs κ :=
  (j.onOutput id fun b => ((), b.clear)).2

end Jobs

end ConsoleShell
