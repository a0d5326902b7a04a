import ConsoleShell.Config.Prompt
import ConsoleShell.Shell.Schedule
/-! The shell as it is used from outside. Every call returns at once; the tasks that it makes or sets
free go on when the shell is settled. -/
namespace ConsoleShell

inductive InputOutcome where
  | consumed
  | dispatched (task : TaskId)
  deriving DecidableEq, Repr

namespace Shell

def ofConfig (config : Config) : Shell :=
  { config, registry := { aliases := config.aliases } }

def register (s : Shell) (d : Declaration) : Except SchemaError Shell := do
  let (_, registry) ← s.registry.register d
  return { s with registry }

def ofDeclarations (config : Config) (commands : List Declaration) : Except SchemaError Shell :=
  commands.foldlM register (ofConfig config)

def openSession (s : Shell) : SessionId × Shell :=
  let session : SessionId := ⟨s.sessionCount⟩
  let data : Session := { store := s.config.initialVariables }
  (session, { s with
    sessions := s.sessions.insert session data
    sessionCount := s.sessionCount + 1
    console := s.console.open session })

def killJobsOf (s : Shell) (session : SessionId) : Nat × Shell :=
  let running := s.jobs.runningIn session
  (running.length, running.foldl (fun s id => (s.killJob id).2) s)

def closeSession (s : Shell) (session : SessionId) : Shell :=
  let (_, s) := s.onScopes ((), s.scopes.discard session)
  let s := wake { s with requests := (s.requests.cancel session).2 }
  let (_, s) := s.killJobsOf session
  { s with
    sessions := s.sessions.erase session
    console := s.console.close session
    exits := s.exits.filter fun other => !decide (other = session) }

def handleInput (s : Shell) (session : SessionId) (line : Text) : InputOutcome × Shell :=
  let (taken, requests) := s.requests.deliver session line
  let s := { s with requests }
  if taken then (.consumed, s.wake)
  else
    let (task, s) := s.spawn (.line session line none)
    (.dispatched task, s)

def execute (s : Shell) (session : SessionId) (line : Text) (piped : Option (List Text)) :
    TaskId × Shell :=
  s.spawn (.line session line piped)

def createJob (s : Shell) (session : SessionId) (line : Text) : JobId × Shell :=
  s.startJob session line none

def openJob (s : Shell) (session : SessionId) (command : Text) : JobId × Shell :=
  s.setJobs (s.jobs.create session command s.wall)

def launch (s : Shell) (session : SessionId) (command : Text) (program : Program) :
    JobId × Shell :=
  let (id, s) := s.openJob session command
  match s.jobs.signal? id with
  | none => (id, s)
  | some signal => (id, (s.spawn (.program ⟨session, .job id signal, none⟩ program)).2)

def watchJob (s : Shell) (job : JobId) : TaskId × Shell :=
  let (task, s) := s.newTask
  (task, s.look task job)

def outcome? (s : Shell) (task : TaskId) : Option Outcome := s.outcomes.lookup task

def sighting? (s : Shell) (task : TaskId) : Option Sighting := s.sightings.lookup task

def hasPendingInput (s : Shell) (session : SessionId) : Bool := s.requests.hasPending session

def markupOutput (s : Shell) (session : SessionId) : List Text :=
  ((s.console.buffer? session).map Buffer.markupLines).getD []

def plainOutput (s : Shell) (session : SessionId) : List Text :=
  ((s.console.buffer? session).map Buffer.plainLines).getD []

def sessionValue? (s : Shell) (session : SessionId) (name : Text) : Option Text :=
  (s.store session).session.get? name

def environmentValue? (s : Shell) (session : SessionId) (name : Text) : Option Text :=
  (s.store session).environment.get? name

def prompt (s : Shell) (session : SessionId) : Text :=
  let value (name : Text) : Text := (s.environmentValue? session name).getD []
  Prompt.render s.config.prompt (value "USER") (value "PWD") (value "HOME")

def takeExit (s : Shell) (session : SessionId) : Bool × Shell :=
  (s.exits.contains session,
    { s with exits := s.exits.filter fun other => !decide (other = session) })

def resetState (s : Shell) : Shell := { s with godMode := false, exits := [] }

def subscribe (s : Shell) : Shell := { s with console := s.console.subscribe }

def takeEvents (s : Shell) : List OutputEvent × Shell := s.setConsole s.console.takeEvents

end Shell

end ConsoleShell
