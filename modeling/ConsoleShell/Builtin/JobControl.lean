import ConsoleShell.Program
/-! The commands for background jobs: `jobs` lists them, `kill` ends one, and `fg` waits for one and
shows what it printed. -/
namespace ConsoleShell.Builtin

def describeJob (now : Nat) (job : JobSnapshot) : Text :=
  let status :=
    if job.status = .running then Sgr.yellow ++ job.status.label ++ Sgr.reset else job.status.label
  let line := '[' :: job.id.display ++ "] " ++ status ++ " " ++ Markup.escape job.command ++ " " ++
    Sgr.dim ++ "(" ++ Text.ofInt (job.elapsed now) ++ "s)" ++ Sgr.reset
  match job.error with
  | some error => line ++ "\n    error: " ++ Markup.escape error
  | none => line

def runJobs (arguments : Arguments) (_ : Caller) : Program :=
  .inspect fun view =>
    if arguments.isOn "clear" then
      let ended := view.jobs.filter fun job => job.status.isFinal
      .change .clearFinishedJobs <|
        .say ("Removed " ++ Text.ofNat ended.length ++ " finished job(s).") .finish
    else
      let listed := view.jobs.filter fun job => arguments.isOn "all" || job.status = .running
      if listed.isEmpty then .say (Sgr.dim ++ "No jobs." ++ Sgr.reset) .finish
      else .say (Text.unlines (listed.map (describeJob view.now))) .finish

def jobs : Declaration where
  name := "jobs"
  description := "List background jobs."
  flags := some [
    (Flag.boolean "all").withAlias "a" |>.withConflict "clear"
      |>.describedAs "Include finished jobs.",
    (Flag.boolean "clear").describedAs "Remove every finished job."]
  handler := runJobs

def namedJob (arguments : Arguments) : Except Failure JobId :=
  (JobId.read (arguments.positionals.headD [])).mapError Failure.job

def runKill (arguments : Arguments) (_ : Caller) : Program :=
  .orFail (namedJob arguments) fun id =>
    .kill id fun
      | .ok .killed => .say ('[' :: id.display ++ "] killed") .finish
      | .ok (.alreadyFinished status) =>
        .say ('[' :: id.display ++ "] already " ++ status.label) .finish
      | .error error => .fail (.job error)

def kill : Declaration where
  name := "kill"
  description := "Kill a running background job (N or %N)."
  positionals := [{ name := "job", required := true }]
  handler := runKill

def runFg (arguments : Arguments) (_ : Caller) : Program :=
  .orFail (namedJob arguments) fun id =>
    .awaitJob id fun job =>
      .replay job.output <| .inspect fun view => .say (describeJob view.now job) .finish

def fg : Declaration where
  name := "fg"
  description := "Wait for a background job, then show its output."
  positionals := [{ name := "job", required := true }]
  handler := runFg

end ConsoleShell.Builtin
