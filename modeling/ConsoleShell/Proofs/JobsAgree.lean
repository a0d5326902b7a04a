import ConsoleShell.Proofs.Crashes
import ConsoleShell.Proofs.MarkedLines
import ConsoleShell.Proofs.PlainRuns

/-! Lines at the console and lines as jobs. A line that calls a plain command, or none at all, comes to the
same in both ways: it changes the same, what the job has on its record is what the console shows, and the
job is recorded to have gone as the line went. The report of a line that fails is for the console alone. -/
namespace ConsoleShell.JobsAgree
open Actions (plainly Each Plain)
open MarkedLines (mark)
open PlainRuns
open Shell (Reachable)

def CallsPlain (s : Shell) (session : SessionId) (line : Text) : Prop :=
  ∀ name words, tokenize (s.expandLine session line) = .ok (name :: words) →
    s.registry.command? (s.registry.resolve name).command = none ∨
      (s.registry.resolve name).command ∈ plainly.map (·.name)

example : plainly.map (·.name) = (["alias", "unalias", "echo", "env", "export", "set", "unset", "godmode",
    "help", "sort"] : List Text) := rfl

def atConsole (tie : Shell.Tie) (s : Shell) (session : SessionId) (line : Text) (piped : Option (List Text)) :
    Shell :=
  (s.execute session line piped).2.resume tie ⟨s.taskCount⟩

def asJob (tie : Shell.Tie) (s : Shell) (session : SessionId) (line : Text) : Shell :=
  (s.createJob session line).2.resume tie ⟨s.taskCount⟩

/- The same line as it is typed to run in the background: the task of the line starts the job, and the next
one is that of the job. -/
def typedAsJob (tie : Shell.Tie) (s : Shell) (session : SessionId) (line : Text)
    (piped : Option (List Text)) : Shell :=
  ((s.execute session (line ++ mark) piped).2.resume tie ⟨s.taskCount⟩).resume tie ⟨s.taskCount + 1⟩

structure GoneAs (record : Job) (outcome : Outcome) : Prop where
  completed : record.status = .completed ∧ record.error = none ↔ outcome = .ok
  failed : ∀ text, record.status = .failed ∧ record.error = some text ↔
    ∃ error, outcome = .failed error ∧ error.message = text

def report : Outcome → List (OutputKind × Text)
  | .failed error => [(.error, Markup.escape error.message)]
  | _ => []

structure Agrees (s : Shell) (session : SessionId) (outcome : Outcome) (console job : Shell) : Prop where
  recorded : console.outcomes = s.outcomes ++ [(⟨s.taskCount⟩, outcome)]
  answered : outcome ≠ .crashed
  stores : ∀ other, job.store other = console.store other
  registry : job.registry = console.registry
  godMode : job.godMode = console.godMode
  record : ∃ record, job.jobs.table.get? ⟨s.jobs.lastId + 1⟩ = some record ∧ GoneAs record outcome ∧
    ∀ shown, s.console.buffer? session = some shown →
      ∃ after appended, console.console.buffer? session = some after ∧
        after.groups = shown.groups ++ appended ∧
        contents appended = contents record.output.groups ++ rendered (report outcome)

variable {s t a b x y : Shell} {session : SessionId} {line other : Text} {outcome : Outcome}
  {tie : Shell.Tie} {piped : Option (List Text)} {scope : Scope} {signal : SignalId} {task : TaskId}

theorem calledResolved {call : Call} (read : s.readCall session line = .ok (some call)) :
    ∃ name words, tokenize (s.expandLine session line) = .ok (name :: words) ∧
      s.registry.command? (s.registry.resolve name).command = some call.command := by
  unfold Shell.readCall at read
  obtain ⟨typed, words, read⟩ := bindOk.mp read
  have words := mapErrorOk.mp words
  split at read
  · cases read
  · rename_i name rest
    dsimp only at read
    split at read
    · rename_i command found
      obtain ⟨arguments, -, same⟩ := bindOk.mp read
      cases same
      exact ⟨_, _, words, found⟩
    · cases read

theorem plainCalled (provided : Shell.Provided s.registry.commands) (calls : CallsPlain s session line)
    {call : Call} (read : s.readCall session line = .ok (some call)) :
    ∃ d ∈ plainly, call.command.handler = d.handler := by
  obtain ⟨name, words, split, found⟩ := calledResolved read
  rcases calls name words split with unknown | plain
  · rw [unknown] at found
    contradiction
  · obtain ⟨d, mem, named⟩ := List.mem_map.mp plain
    have listed : d ∈ Builtin.all := by
      have within : ∀ e ∈ plainly, e ∈ Builtin.all := by simp [plainly, Builtin.all]
      exact within d mem
    obtain ⟨c, built, there⟩ := provided.all d listed
    unfold Registry.command? at found
    rw [← named, there] at found
    cases found
    exact ⟨d, mem, (Arguments.builtAs built).2⟩

theorem concludeTwin (s : Shell) (id : TaskId) (session : SessionId) (origin : Origin) (outcome : Outcome) :
    Twin s (s.conclude id session origin outcome) := by
  unfold Shell.conclude
  cases origin with
  | foreground scope => cases outcome <;> exact .same rfl rfl rfl
  | job job signal =>
    dsimp only
    split <;> exact .same rfl rfl rfl

theorem concludeReports (s : Shell) (id : TaskId) (session : SessionId) (scope : Scope) (outcome : Outcome) :
    Heard session (report outcome) s (s.conclude id session (.foreground scope) outcome) none := by
  cases outcome with
  | failed error => exact heardPrint s session none .error (Markup.escape error.message)
  | ok | crashed => exact .nothing rfl rfl

def settled (record : Job) (now : Nat) (result : JobResult) : Job :=
  { record with status := result.status, endedAt := some now, error := result.error? }

theorem concludeSettles {job : JobId} {record : Job} (there : s.jobs.table.get? job = some record)
    (running : record.status = .running) {result : JobResult}
    (answered : outcome.jobResult? = some result) :
    (s.conclude task session (.job job signal) outcome).jobs.table.get? job =
      some (settled record s.wall result) := by
  have still : record.status.isFinal = false := by
    rw [running]
    rfl
  unfold Shell.conclude
  dsimp only
  rw [answered]
  change (s.jobs.settle job result s.wall).table.get? job = _
  unfold Jobs.settle
  rw [there]
  simp only [still, Bool.false_eq_true, if_false]
  rw [Dict.getInsert, if_pos rfl]
  rfl

theorem goneAs (record : Job) (now : Nat) {result : JobResult} (answered : outcome.jobResult? = some result) :
    GoneAs (settled record now result) outcome := by
  cases outcome with
  | ok =>
    cases answered
    exact ⟨by simp [settled, JobResult.status, JobResult.error?], by simp [settled, JobResult.status]⟩
  | failed error =>
    cases answered
    exact ⟨by simp [settled, JobResult.status], by simp [settled, JobResult.status, JobResult.error?]⟩
  | crashed => cases answered

structure Opened (s : Shell) (session : SessionId) (a : Shell) : Prop where
  twin : Twin s a
  outcomes : a.outcomes = s.outcomes
  console : a.console.buffer? session = s.console.buffer? session

structure Begun (s : Shell) (b : Shell) : Prop where
  twin : Twin s b
  record : ∃ record, b.jobs.table.get? ⟨s.jobs.lastId + 1⟩ = some record ∧ record.status = .running ∧
    record.output = .empty

theorem concludeAgrees (opened : Opened s session a) (begun : Begun s b)
    {said : List (OutputKind × Text)} (twin : Twin x y) (outcomes : x.outcomes = a.outcomes)
    (heard : Heard session said a x none) (captured : Heard session said b y (some ⟨s.jobs.lastId + 1⟩))
    (answered : outcome ≠ .crashed) :
    Agrees s session outcome (x.conclude ⟨s.taskCount⟩ session (.foreground scope) outcome)
      (y.conclude task session (.job ⟨s.jobs.lastId + 1⟩ signal) outcome) := by
  obtain ⟨fresh, made, running, empty⟩ := begun.record
  have told : ∃ result, outcome.jobResult? = some result := by
    cases outcome with
    | ok | failed error => exact ⟨_, rfl⟩
    | crashed => exact absurd rfl answered
  obtain ⟨result, told⟩ := told
  have there : y.jobs.table.get? ⟨s.jobs.lastId + 1⟩ =
      some { fresh with output := spoken .empty said } := by
    rw [← empty, (captured : _ = _), made]
    rfl
  have concluded := ((concludeTwin x ⟨s.taskCount⟩ session (.foreground scope) outcome).symm.trans twin).trans
    (concludeTwin y task session (.job ⟨s.jobs.lastId + 1⟩ signal) outcome)
  refine ⟨?_, answered, concluded.store, concluded.registry, concluded.godMode,
    settled { fresh with output := spoken .empty said } y.wall result,
    concludeSettles there running told, goneAs _ _ told, fun shown found => ?_⟩
  · rw [Shell.concludeRecords, outcomes, opened.outcomes]
  · -- The report follows what the command has said, at the console alone.
    have all := heard.trans (concludeReports x ⟨s.taskCount⟩ session scope outcome)
    unfold Heard at all
    dsimp only at all
    rw [opened.console, found, Option.map_some] at all
    obtain ⟨appended, groups, same⟩ := spokenGroups shown (said ++ report outcome)
    obtain ⟨captured, output, alike⟩ := spokenGroups .empty said
    refine ⟨_, appended, all, groups, ?_⟩
    change _ = contents (spoken .empty said).groups ++ _
    rw [same, output]
    change _ = contents captured ++ _
    rw [alike]
    exact List.map_append

theorem dispatchAgrees (opened : Opened s session a) (begun : Begun s b)
    (same : b.readCall session other = a.readCall session line)
    (plain : ∀ call, a.readCall session line = .ok (some call) →
      ∃ d ∈ plainly, call.command.handler = d.handler) :
    ∃ outcome, Agrees s session outcome (a.dispatch ⟨s.taskCount⟩ session (.foreground scope) line piped)
      (b.dispatch task session (.job ⟨s.jobs.lastId + 1⟩ signal) other piped) := by
  have twin := opened.twin.symm.trans begun.twin
  have silent {outcome : Outcome} (answered : outcome ≠ .crashed) :
      Agrees s session outcome (a.conclude ⟨s.taskCount⟩ session (.foreground scope) outcome)
        (b.conclude task session (.job ⟨s.jobs.lastId + 1⟩ signal) outcome) :=
    concludeAgrees opened begun twin rfl (.nothing rfl rfl) (.nothing rfl rfl) answered
  unfold Shell.dispatch
  rw [same]
  cases read : a.readCall session line with
  | error error => exact ⟨.failed error, silent (by simp)⟩
  | ok call? =>
    cases call? with
    | none => exact ⟨.ok, silent (by simp)⟩
    | some call =>
      obtain ⟨d, mem, handler⟩ := plain call read
      obtain ⟨ending, said, aligned⟩ := alignedPerform
        (c := ⟨session, .foreground scope, some call.command.name⟩)
        (d := ⟨session, .job ⟨s.jobs.lastId + 1⟩ signal, some call.command.name⟩)
        twin rfl (Actions.plainCommands d mem call.arguments ⟨none, piped⟩)
        Shell.fullTurn Shell.fullTurn
      have anywhere := plainAnywhere d mem call.arguments piped (some ⟨s.jobs.lastId + 1⟩) none
      refine ⟨ending.outcome call.command.name, ?_⟩
      dsimp only [Origin.job?]
      rw [handler, anywhere, Shell.leaveCommand aligned.left rfl, Shell.leaveCommand aligned.right rfl]
      exact concludeAgrees opened begun aligned.twin (Shell.keptPerform _ _ _ _).outcomes aligned.heard
        aligned.captured fun crashed => aligned.lives (Crashes.crashedOutcome crashed)

section Begins

variable (h : Reachable s)

include h

theorem lookupNew {task : Shell.Task} {tasks : List (TaskId × Shell.Task)}
    (added : tasks = s.tasks ++ [(⟨s.taskCount⟩, task)]) : tasks.lookup ⟨s.taskCount⟩ = some task :=
  added ▸ QuotedEcho.lookupAdded (Shell.turnNew (Shell.soundReachable h)).taken

theorem consoleBegins (plain : s.assign? session (Text.trim line) = none) (tie : Shell.Tie)
    (piped : Option (List Text)) (words : Text.trim line ≠ [])
    (foreground : Background.command? (Text.trim line) = none) :
    ∃ a scope, Opened s session a ∧ atConsole tie s session line piped =
        a.dispatch ⟨s.taskCount⟩ session (.foreground scope) (Text.trim line) piped := by
  have stands : (s.execute session line piped).2.tasks.lookup ⟨s.taskCount⟩ =
      some (.line session line piped) := lookupNew h rfl
  have begins := Shell.startsCommand tie stands words (Shell.assignSame (s := s) rfl plain) foreground
  obtain ⟨ready, begun⟩ := Refusal.openedShell (s.execute session line piped).2 ⟨s.taskCount⟩ session line
  have quiet : Refusal.Unattended (s.execute session line piped).2.scopes session :=
    Refusal.unattendedReachable h session
  rw [Refusal.heardNothing quiet] at begun
  refine ⟨_, _, ?_, begins⟩
  rw [begun]
  exact ⟨(twinRemember s session (Text.trim line)).trans (.same rfl rfl rfl), rfl, rfl⟩

omit h in
theorem begunMade (twin : Twin s b) {line : Text} {now : Nat}
    (jobs : b.jobs = (s.jobs.create session line now).2) : Begun s b := by
  refine ⟨twin, ?_⟩
  rw [jobs]
  unfold Jobs.create
  dsimp only
  rw [Dict.getInsert, if_pos rfl]
  exact ⟨_, rfl, rfl, rfl⟩

theorem jobBegins (tie : Shell.Tie) (session : SessionId) (line : Text) : ∃ b, Begun s b ∧
    asJob tie s session line = b.dispatch ⟨s.taskCount⟩ session
      (.job ⟨s.jobs.lastId + 1⟩ s.jobs.signals.create.1) line none := by
  have created := ShellJobs.deedsStart s session line none
  obtain ⟨jobs, ready, same⟩ := OwnRequests.jobStarted s session line none
  rw [same] at created
  unfold asJob Shell.createJob
  rw [same]
  generalize made : ({ s with jobs, ready, tasks := _, taskCount := _ } : Shell) = t
  have stands : t.tasks.lookup ⟨s.taskCount⟩ = some (.job session ⟨s.jobs.lastId + 1⟩
      s.jobs.signals.create.1 line none) := lookupNew h (made ▸ rfl)
  refine ⟨t.withdraw ⟨s.taskCount⟩, begunMade (made ▸ .same rfl rfl rfl) (made ▸ created), ?_⟩
  dsimp only
  unfold Shell.resume
  rw [stands]
  rfl

theorem typedBegins (tie : Shell.Tie) (piped : Option (List Text)) {command : Text}
    (plain : s.assign? session (Text.trim (line ++ mark)) = none)
    (background : Background.command? (Text.trim (line ++ mark)) = some command) : ∃ b, Begun s b ∧
      typedAsJob tie s session line piped = b.dispatch ⟨s.taskCount + 1⟩ session
        (.job ⟨s.jobs.lastId + 1⟩ s.jobs.signals.create.1) command piped := by
  have called : Reachable (s.execute session (line ++ mark) piped).2 := h.step (.execute _ _ _ _)
  generalize made : (s.execute session (line ++ mark) piped).2 = u at called
  have stands : u.tasks.lookup ⟨s.taskCount⟩ = some (.line session (line ++ mark) piped) :=
    lookupNew h (made ▸ rfl)
  have unassigned : u.assign? session (Text.trim (line ++ mark)) = none :=
    Shell.assignSame (s := s) (made ▸ rfl) plain
  have twin : Twin s u := made ▸ .same rfl rfl rfl
  have count : u.taskCount = s.taskCount + 1 := made ▸ rfl
  have jobs : u.jobs = s.jobs := made ▸ rfl
  obtain ⟨console, outcomes, ready, started⟩ := Shell.startsJob tie stands unassigned background
  unfold typedAsJob
  rw [made]
  generalize u.resume tie ⟨s.taskCount⟩ = t at started ⊢
  have again : t.tasks.lookup ⟨s.taskCount + 1⟩ = some (.job session ⟨s.jobs.lastId + 1⟩
      s.jobs.signals.create.1 command piped) := by
    have fresh := (Shell.turnNew (Shell.soundReachable called)).taken
    rw [started, ← count, ← jobs]
    exact QuotedEcho.lookupAdded fun e mem => fresh e (List.mem_filter.mp mem).1
  have created : t.jobs = (s.jobs.create session command u.wall).2 := by rw [started, ← jobs]
  have begun : Twin s t := by
    rw [started]
    exact twin.trans ((twinRemember u session _).trans (.same rfl rfl rfl))
  refine ⟨t.withdraw ⟨s.taskCount + 1⟩, begunMade (begun.trans (.same rfl rfl rfl)) created, ?_⟩
  unfold Shell.resume
  rw [again]
  rfl

end Begins

/- Whatever has happened before, and wherever on its way the line fails. Lines may be piped into it, unless it is
handed in as a job by itself. An open session has a console, on which the two can be compared. -/
theorem consoleAgrees (h : Reachable s) (plain : s.assign? session (Text.trim line) = none)
    (foreground : Background.command? line = none) (marked : Background.command? (line ++ mark) = some line)
    (calls : CallsPlain s session line) (tie : Shell.Tie) :
    (∀ piped, ∃ outcome, Agrees s session outcome (atConsole tie s session line piped)
      (typedAsJob tie s session line piped)) ∧
      (∃ outcome, Agrees s session outcome (atConsole tie s session line none) (asJob tie s session line)) ∧
      (s.isOpen session = true → ∃ shown, s.console.buffer? session = some shown) := by
  have markable := MarkedLines.markable marked
  obtain ⟨gap, blank, whole⟩ := markable.gap
  -- A line that is typed is trimmed first, one that is handed in as a job is not.
  have trimmed : s.readCall session line = s.readCall session (Text.trim line) := by
    rw [whole]
    exact (MarkedLines.readBehind blank s session _).trans (by rw [← whole])
  have unmarked : Background.command? (Text.trim line) = none := by
    rw [whole, MarkedLines.commandBehind blank] at foreground
    exact Option.map_eq_none_iff.mp foreground
  have provided := (Shell.soundReachable h).provided
  have both {a b : Shell} {scope signal task other piped} (opened : Opened s session a) (begun : Begun s b)
      (read : s.readCall session other = s.readCall session line) :
      ∃ outcome, Agrees s session outcome
        (a.dispatch ⟨s.taskCount⟩ session (.foreground scope) (Text.trim line) piped)
        (b.dispatch task session (.job ⟨s.jobs.lastId + 1⟩ signal) other piped) := by
    refine dispatchAgrees opened begun ?_ fun call made => ?_
    · rw [twinReads opened.twin, twinReads begun.twin, read, trimmed]
    · rw [twinReads opened.twin, ← trimmed] at made
      exact plainCalled provided calls made
  refine ⟨fun piped => ?_, ?_, fun isOpen => ?_⟩
  · obtain ⟨a, scope, opened, console⟩ := consoleBegins h plain tie piped markable.words unmarked
    have unassigned : s.assign? session (Text.trim (line ++ mark)) = none :=
      markable.typed ▸ MarkedLines.assignMarked markable plain
    have background : Background.command? (Text.trim (line ++ mark)) = some (Text.trim line) :=
      markable.typed ▸ markable.command
    obtain ⟨b, begun, job⟩ := typedBegins h tie piped unassigned background
    rw [console, job]
    exact both opened begun trimmed.symm
  · obtain ⟨a, scope, opened, console⟩ := consoleBegins h plain tie none markable.words unmarked
    obtain ⟨b, begun, job⟩ := jobBegins h tie session line
    rw [console, job]
    exact both opened begun rfl
  · exact Option.isSome_iff_exists.mp ((Shell.soundReachable h).buffers session isOpen)

def aliased : Shell :=
  { Offstage.opened with
    registry := { Offstage.opened.registry with aliases := .ofList [("ex", "alias"), ("a", "echo hi")] } }

theorem aliasedReachable : Reachable aliased := Offstage.openedReachable.step (.setAliases _ _)

theorem consoleAgreesAliased :
    let line : Text := "  ex x=1 a b"
    let console := atConsole .event aliased ⟨0⟩ line none
    let job := asJob .event aliased ⟨0⟩ line
    (∀ piped, ∃ outcome, Agrees aliased ⟨0⟩ outcome (atConsole .event aliased ⟨0⟩ line piped)
      (typedAsJob .event aliased ⟨0⟩ line piped)) ∧
      (∃ outcome, Agrees aliased ⟨0⟩ outcome console job) ∧
      (∃ shown, aliased.console.buffer? ⟨0⟩ = some shown) ∧
      console.plainOutput ⟨0⟩ = (["alias a=&#39;echo hi&#39;", "alias: b: not found"] : List Text) ∧
      (job.jobs.get? ⟨1⟩).map JobSnapshot.plainLines = some (["alias a=&#39;echo hi&#39;"] : List Text) ∧
      (job.jobs.get? ⟨1⟩).bind JobSnapshot.error = some "alias: b: not found" ∧
      job.registry.aliases.get? "x" = some "1" := by
  intro line console job
  have calls : CallsPlain aliased ⟨0⟩ line := by
    intro name words split
    have known : tokenize (aliased.expandLine ⟨0⟩ line) = .ok (["ex", "x=1", "a", "b"] : List Text) := by
      decide +kernel
    cases known.symm.trans split
    exact .inr (by decide +kernel)
  obtain ⟨typed, made, shown⟩ := consoleAgrees aliasedReachable (by decide +kernel) (by decide +kernel)
    (by decide +kernel) calls .event
  exact ⟨typed, made, shown (by decide +kernel), by decide +kernel⟩

end ConsoleShell.JobsAgree
