import ConsoleShell.Shell.Basic
/-! What happens to the shell in a single action of a command: it prints, changes something, asks
for a line, or sets other tasks free. -/
namespace ConsoleShell.Shell

def printAt (s : Shell) (session : SessionId) (job : Option JobId) (kind : OutputKind)
    (text : Text) : Option GroupId × Shell :=
  match job with
  | none => s.setConsole (s.console.print session kind text)
  | some id => s.setJobs (s.jobs.print id kind text)

/-- The group of what a command prints. Where nothing was taken it is a group that never is. -/
def print (s : Shell) (c : Invocation) (kind : OutputKind) (text : Text) : GroupId × Shell :=
  let (group, s) := s.printAt c.session c.origin.job? kind text
  (group.getD ⟨0⟩, s)

def update (s : Shell) (c : Invocation) (group : GroupId) (text : Text) : Bool × Shell :=
  match c.origin.job? with
  | none => s.setConsole (s.console.update c.session group text)
  | some id => s.setJobs (s.jobs.update id group text)

def delete (s : Shell) (c : Invocation) (group : GroupId) : Bool × Shell :=
  match c.origin.job? with
  | none => s.setConsole (s.console.delete c.session group)
  | some id => s.setJobs (s.jobs.delete id group)

def clear (s : Shell) (c : Invocation) : Shell :=
  match c.origin.job? with
  | none => { s with console := s.console.clear c.session }
  | some id => { s with jobs := s.jobs.clearOutput id }

def replay (s : Shell) (c : Invocation) (groups : List Group) : Shell :=
  match c.origin.job? with
  | none =>
    { s with console := groups.foldl (fun console g => (console.replay c.session g).2) s.console }
  | some _ => s

def echo (s : Shell) (e : Echo) : Shell := (s.printAt e.session e.job .output e.text).2

/-- A change to the scopes: what ran is printed, and what was asked to stop is woken. -/
def onScopes {α : Type} (s : Shell) (change : α × List (Note Echo) × Scopes Echo) : α × Shell :=
  let (answer, notes, scopes) := change
  let echoes := notes.filterMap fun
    | .ran e => some e
    | _ => none
  (answer, (echoes.foldl echo { s with scopes }).wake)

def beginScope (s : Shell) (session : SessionId) : Scope × Shell :=
  s.onScopes (s.scopes.begin session)

def finishScope (s : Shell) (session : SessionId) (scope : Scope) : Shell :=
  { s with scopes := (s.scopes.finish session scope.id).2 }

def cancel (s : Shell) (session : SessionId) : CancelOutcome × Shell :=
  s.onScopes (s.scopes.cancel session)

def onCancel (s : Shell) (c : Invocation) (text : Text) : Shell :=
  let e : Echo := ⟨c.session, c.origin.job?, text⟩
  match c.origin with
  | .foreground scope => (s.onScopes ((), s.scopes.onCancel scope.signal (.note e .done))).2
  | .job _ signal =>
    if s.jobs.signals.isFired signal then s.echo e
    else { s with jobs := s.jobs.queue signal e }

def killJob (s : Shell) (id : JobId) : Except JobError KillOutcome × Shell :=
  let (outcome, echoes, jobs) := s.jobs.kill id s.wall
  (outcome, (echoes.foldl echo { s with jobs }).wake)

def settleJob (s : Shell) (id : JobId) (result : JobResult) : Shell :=
  wake { s with jobs := s.jobs.settle id result s.wall }

/-- A request for the next line. Jobs have no line to wait for. -/
def awaitLine (s : Shell) (c : Invocation) : Except Failure RequestId × Shell :=
  match c.origin with
  | .job _ _ => (.error (.input .unavailable), s)
  | .foreground _ =>
    if s.isCancelled c.origin then (.error .cancelled, s)
    else
      let (request, _, requests) := s.requests.await c.session
      (.ok request, wake { s with requests })

def roll (s : Shell) (sides : Nat) : Nat × Shell :=
  (s.dice 0 % sides + 1, { s with dice := fun n => s.dice (n + 1) })

def requestExit (s : Shell) (session : SessionId) : Shell :=
  if s.exits.contains session then s else { s with exits := session :: s.exits }

def change (s : Shell) (session : SessionId) : Change → Shell
  | .setVariable name value => s.onStore session fun v => v.setSession name value
  | .unsetVariable name => s.onStore session fun v => v.unsetSession name
  | .setEnvironment name value => s.onStore session fun v => v.setEnvironment name value
  | .unsetEnvironment name => s.onStore session fun v => v.unsetEnvironment name
  | .setAlias name target => { s with registry := s.registry.setAlias name target }
  | .removeAlias name => { s with registry := s.registry.removeAlias name }
  | .clearHistory => s.onSession session fun data => { data with history := [] }
  | .clearFinishedJobs => { s with jobs := s.jobs.clearFinished.2 }
  | .setGodMode on => { s with godMode := on }
  | .requestExit => s.requestExit session

def view (s : Shell) (c : Invocation) : View where
  store := s.store c.session
  history := s.history c.session
  aliases := s.registry.aliases
  commands := (s.registry.list true).map Command.outline
  jobs := s.jobs.list false
  godMode := s.godMode
  cancelled := s.isCancelled c.origin
  now := s.wall

end ConsoleShell.Shell
