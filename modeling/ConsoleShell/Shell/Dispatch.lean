import ConsoleShell.Shell.Perform
/-! What becomes of a line. An assignment is carried out at once, a background line starts a job, and
any other line calls a command. Reading the line comes first and changes nothing, so a line that
cannot be read leaves only its error behind. -/
namespace ConsoleShell

structure Call where
  command : Command Handler
  arguments : Arguments

namespace Shell

def expandLine (s : Shell) (session : SessionId) (line : Text) : Text :=
  match s.sessions.get? session with
  | none => line
  | some data => data.store.expandLine line

def readCall (s : Shell) (session : SessionId) (line : Text) : Except LineError (Option Call) := do
  match ← (tokenize (s.expandLine session line)).mapError LineError.words with
  | [] => return none
  | name :: words =>
    let resolved := s.registry.resolve name
    let some command := s.registry.command? resolved.command
      | throw (.commandNotFound resolved.command)
    let arguments ← (command.parse (resolved.arguments ++ words)).mapError LineError.arguments
    return some ⟨command, arguments⟩

/-- A line comes to its end. Its error is shown at the console, or recorded with its job. -/
def conclude (s : Shell) (task : TaskId) (session : SessionId) (origin : Origin)
    (outcome : Outcome) : Shell :=
  match origin with
  | .foreground scope =>
    let s := match outcome with
      | .failed error => (s.printAt session none .error (Markup.escape error.message)).2
      | _ => s
    (s.finishScope session scope).recordOutcome task outcome
  | .job id _ =>
    match outcome.jobResult? with
    | some result => s.settleJob id result
    | none => s

def leave (task : TaskId) (c : Invocation) (run : Halt × Shell) : Shell :=
  let (halt, s) := run
  match halt with
  | .waiting wait => s.suspend task (.waiting c wait)
  | .yielded rest => s.setAside task (.program c rest)
  | .ended ending =>
    match c.command, c.origin with
    | some name, origin => s.conclude task c.session origin (ending.outcome name)
    | none, .job id _ =>
      match ending.jobResult? with
      | some result => s.settleJob id result
      | none => s
    | none, .foreground scope => s.finishScope c.session scope

def dispatch (s : Shell) (task : TaskId) (session : SessionId) (origin : Origin) (line : Text)
    (piped : Option (List Text)) : Shell :=
  match s.readCall session line with
  | .error error => s.conclude task session origin (.failed error)
  | .ok none => s.conclude task session origin .ok
  | .ok (some call) =>
    let c : Invocation := ⟨session, origin, some call.command.name⟩
    let program := call.command.handler call.arguments ⟨origin.job?, piped⟩
    leave task c (perform c fullTurn program s)

def startJob (s : Shell) (session : SessionId) (line : Text) (piped : Option (List Text)) :
    JobId × Shell :=
  let (id, jobs) := s.jobs.create session line s.wall
  match jobs.signal? id with
  | none => (id, { s with jobs })
  | some signal => (id, (spawn { s with jobs } (.job session id signal line piped)).2)

def remember (s : Shell) (session : SessionId) (line : Text) : Shell :=
  s.onSession session fun data =>
    let history := data.history ++ [line]
    { data with history := history.drop (history.length - s.config.historyLimit) }

def assign? (s : Shell) (session : SessionId) (line : Text) : Option (Assignment × Shell) := do
  let data ← s.sessions.get? session
  let (assignment, store) ← data.store.assign? line
  return (assignment, s.onStore session fun _ => store)

def startLine (s : Shell) (task : TaskId) (session : SessionId) (typed : Text)
    (piped : Option (List Text)) : Shell :=
  let line := Text.trim typed
  if line.isEmpty then s.recordOutcome task .ok
  else
    let s := s.remember session line
    match s.assign? session line with
    | some (assignment, s) =>
      let s := (s.printAt session none .output (Markup.escape assignment.report)).2
      s.recordOutcome task .ok
    | none =>
      match Background.command? line with
      | some command =>
        let (id, s) := s.startJob session command piped
        let report : Text := '[' :: id.display ++ "] started"
        ((s.printAt session none .output report).2).recordOutcome task .ok
      | none =>
        let (scope, s) := s.beginScope session
        s.dispatch task session (.foreground scope) line piped

end Shell

end ConsoleShell
