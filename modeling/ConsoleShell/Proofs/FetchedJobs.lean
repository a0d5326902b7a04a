import ConsoleShell.Proofs.CalledLines
import ConsoleShell.Proofs.ConsoleActs
import ConsoleShell.Proofs.JobEnds
import ConsoleShell.Proofs.PlainRuns

/-! Jobs that are waited for at a console. The command that does so looks at its job when it begins and again
whenever some job is settled, so it waits no longer than the job runs. What it finds in the end it shows once,
all in one turn: copies of what the job has printed, and one more group. The jobs are left alone by it, however
it ends. -/
namespace ConsoleShell.FetchedJobs
open Actions
open CalledLines
open GroupHistory (Numbered)
open JobHistory (History Kept)
open JobWaiting (Watched)
open Offstage (Later)
open PlainRuns (contents)
open Shell (Reachable Step)
open ShellJobs (Deeds)

variable {s t u : Shell} {c : Invocation} {task : TaskId} {session : SessionId} {scope : Scope} {id : JobId}
  {run : Halt × Shell} {tie : Shell.Tie}

def showJob (job : JobSnapshot) : Program :=
  .replay job.output (.inspect fun view => .say (Builtin.describeJob view.now job) .finish)

def copies (last : Nat) : List Group → List Group
  | [] => []
  | g :: rest => ⟨⟨last + 1⟩, g.kind, g.lines⟩ :: copies (last + 1) rest

theorem copiesContents (last : Nat) (groups : List Group) : contents (copies last groups) = contents groups := by
  induction groups generalizing last with
  | nil => rfl
  | cons g rest ih => exact congrArg ((g.kind, g.lines) :: ·) (ih (last + 1))

theorem copiesNumbers (last : Nat) (groups : List Group) :
    (copies last groups).map (fun g => g.id.number) = List.range' (last + 1) groups.length := by
  induction groups generalizing last with
  | nil => rfl
  | cons g rest ih => exact congrArg ((last + 1) :: ·) (ih (last + 1))

def shownIn (b : Buffer) (job : JobSnapshot) (now : Nat) : Buffer :=
  let last := b.lastId + job.output.length
  ⟨b.groups ++ copies b.lastId job.output ++
    [⟨⟨last + 1⟩, .output, Render.text .output (Builtin.describeJob now job)⟩], last + 1⟩

theorem pushedBuffer (c : Console) (session other : SessionId) (kind : OutputKind) (lines : List Line) :
    (c.pushLines session kind lines).2.buffer? other =
      if other = session then (c.buffer? session).map fun b => (b.pushLines kind lines).2 else c.buffer? other := by
  unfold Console.pushLines
  cases found : c.buffer? session with
  | none =>
    dsimp only
    split
    · rename_i same
      rw [same]
      exact found
    · rfl
  | some b =>
    show (c.buffers.insert session (b.pushLines kind lines).2).get? other = _
    rw [Dict.getInsert]
    rfl

theorem replayedBuffer (c : Console) (session other : SessionId) (groups : List Group) :
    (groups.foldl (fun c g => (c.replay session g).2) c).buffer? other =
      if other = session then
        (c.buffer? session).map fun b => ⟨b.groups ++ copies b.lastId groups, b.lastId + groups.length⟩
      else c.buffer? other := by
  induction groups generalizing c with
  | nil =>
    split
    · rename_i same
      simp [copies, same]
    · rfl
  | cons g rest ih =>
    rw [List.foldl_cons, ih]
    unfold Console.replay
    rw [pushedBuffer, pushedBuffer, if_pos rfl, Option.map_map]
    by_cases same : other = session
    · rw [if_pos same, if_pos same]
      refine congrArg (Option.map · (c.buffer? session)) (funext fun b => ?_)
      simp [Buffer.pushLines, copies, Nat.add_comm, Nat.add_left_comm]
    · rw [if_neg same, if_neg same, if_neg same]

def shownAt (c : Console) (session : SessionId) (job : JobSnapshot) (now : Nat) : Console :=
  ((job.output.foldl (fun c g => (c.replay session g).2) c).print session .output (Builtin.describeJob now job)).2

theorem shownBuffer (c : Console) (session other : SessionId) (job : JobSnapshot) (now : Nat) :
    (shownAt c session job now).buffer? other =
      if other = session then (c.buffer? session).map (shownIn · job now) else c.buffer? other := by
  unfold shownAt Console.print
  rw [pushedBuffer, replayedBuffer, replayedBuffer, if_pos rfl, Option.map_map]
  split <;> rfl

inductive Fetched (c : Invocation) (id : JobId) (s : Shell) : Halt × Shell → Prop where
  | shows {job} (found : s.jobs.get? id = some job) (final : job.status.isFinal = true) :
      Fetched c id s (.ended .finished, { s with console := shownAt s.console c.session job s.wall })
  | missing (unknown : s.jobs.get? id = none) : Fetched c id s (.ended (.failed (.job (.notFound id))), s)
  | stops (asked : s.isCancelled c.origin = true) : Fetched c id s (.ended (.failed .cancelled), s)
  | waits {job} (found : s.jobs.get? id = some job) (runs : job.status.isFinal = false)
      (unasked : s.isCancelled c.origin = false) :
      Fetched c id s (.waiting (.job ⟨id, s.jobs.notices⟩ showJob), s)

theorem performShow (place : c.origin.job? = none) (left : Nat) (job : JobSnapshot) (s : Shell) :
    Shell.perform c left (showJob job) s =
      (.ended .finished, { s with console := shownAt s.console c.session job s.wall }) := by
  have replayed : s.replay c job.output =
      { s with console := job.output.foldl (fun c' g => (c'.replay c.session g).2) s.console } := by
    unfold Shell.replay
    rw [place]
  show (Halt.ended .finished, (Shell.print (s.replay c job.output) c .output
    (Builtin.describeJob (s.replay c job.output).wall job)).2) = _
  rw [replayed]
  unfold Shell.print Shell.printAt
  rw [place]
  rfl

theorem performFetched (place : c.origin.job? = none) (left : Nat) (id : JobId) (s : Shell) :
    Fetched c id s (Shell.perform c left (.awaitJob id showJob) s) := by
  unfold Shell.perform Jobs.watch Jobs.look
  cases found : s.jobs.get? id with
  | none => exact .missing found
  | some job =>
    cases final : job.status.isFinal with
    | true =>
      simp only [final, if_true]
      rw [performShow place]
      exact .shows found final
    | false =>
      simp only [final, Bool.false_eq_true, if_false]
      split
      · rename_i asked
        exact .stops asked
      · rename_i unasked
        exact .waits found final (Bool.eq_false_iff.mpr unasked)

theorem goOnFetched (place : c.origin.job? = none) {watch : Watch}
    (moves : s.canMove (.waiting c (.job watch showJob)) = true) (tie : Shell.Tie) :
    Fetched c watch.job s (Shell.goOn tie c (.job watch showJob) s) := by
  unfold Shell.goOn
  split
  · exact performFetched place _ _ s
  · exact performFetched place _ _ s
  · rename_i asked
    exact .stops asked
  · rename_i asked
    exact .stops asked
  · rename_i early unasked
    simp [Shell.canMove, early, unasked] at moves

/- Nobody has missed anything who waits with this watch. -/
def UpToDate (j : Jobs Echo) (watch : Watch) : Prop :=
  ∃ history : History Echo, Kept history ∧ history.jobs = j ∧ Watched history watch

theorem upToDateDeeds {j k : Jobs Echo} {watch : Watch} (deeds : Deeds j k) (current : UpToDate j watch) :
    UpToDate k watch := by
  obtain ⟨deeds, rfl⟩ := deeds
  induction deeds generalizing j with
  | nil => exact current
  | cons d rest ih =>
    obtain ⟨history, kept, rfl, watched⟩ := current
    exact ih ⟨history.add d, JobHistory.keptAdd kept d, rfl, JobWaiting.watchedAdd kept watched d⟩

theorem unfinishedRuns {j : Jobs Echo} {job : JobSnapshot} (found : j.get? id = some job)
    (runs : job.status.isFinal = false) : JobWaiting.Runs j id := by
  obtain ⟨record, listed, rfl⟩ := Option.map_eq_some_iff.mp found
  refine ⟨record, listed, ?_⟩
  change record.status.isFinal = false at runs
  cases status : record.status with
  | running => rfl
  | _ =>
    rw [status] at runs
    cases runs

theorem upToDateLooked (reachable : Reachable s) (runs : JobWaiting.Runs s.jobs id) :
    UpToDate s.jobs ⟨id, s.jobs.notices⟩ := by
  obtain ⟨history, kept, same⟩ := ShellJobs.historyReachable reachable
  rw [← same] at runs ⊢
  exact ⟨history, kept, rfl, (JobWaiting.watchedLook kept (JobWaiting.lookRuns runs)).2⟩

theorem quietRuns {j : Jobs Echo} {watch : Watch} (current : UpToDate j watch)
    (quiet : j.isWoken watch = false) : JobWaiting.Runs j watch.job := by
  obtain ⟨history, -, rfl, watched⟩ := current
  have unseen : ¬ watch.seen < history.jobs.notices := of_decide_eq_false quiet
  exact watched.runs (Nat.le_antisymm watched.seen (Nat.not_lt.mp unseen))

def fetcher (session : SessionId) (scope : Scope) : Invocation := ⟨session, .foreground scope, some "fg"⟩

def Fetching (s : Shell) (task : TaskId) (session : SessionId) (scope : Scope) (id : JobId) : Prop :=
  ∃ watch, watch.job = id ∧ (task, .waiting (fetcher session scope) (.job watch showJob)) ∈ s.tasks ∧
    UpToDate s.jobs watch

inductive Way where
  | shown
  | stopped
  | missing
  deriving DecidableEq

def notFound (id : JobId) : LineError := .command "fg" (.job (.notFound id))

/- A turn with which it ends, and how: with a job that no longer runs, because it is asked to stop, or for want of
a job. -/
inductive Ends (s : Shell) (task : TaskId) (session : SessionId) (scope : Scope) (id : JobId) (t : Shell) :
    Way → Prop where
  | shown {job} (found : s.jobs.get? id = some job) (final : job.status.isFinal = true)
      (done : t.outcome? task = some .ok)
      (console : ∀ other, t.console.buffer? other =
        if other = session then (s.console.buffer? session).map (shownIn · job s.wall) else s.console.buffer? other) :
      Ends s task session scope id t .shown
  | stopped (asked : s.isCancelled (.foreground scope) = true) (done : t.outcome? task = some .ok)
      (console : t.console = s.console) : Ends s task session scope id t .stopped
  | missing (unknown : s.jobs.get? id = none) (failed : t.outcome? task = some (.failed (notFound id)))
      (console : t.console = (s.console.print session .error (Markup.escape (notFound id).message)).2) :
      Ends s task session scope id t .missing

theorem endsOneWay {way other : Way} {b : Buffer} (there : s.console.buffer? session = some b)
    (first : Ends s task session scope id t way) (second : Ends s task session scope id t other) : way = other := by
  have grows {job : JobSnapshot}
      (console : ∀ other, t.console.buffer? other =
        if other = session then (s.console.buffer? session).map (shownIn · job s.wall) else s.console.buffer? other)
      (same : t.console = s.console) : False := by
    have here := console session
    rw [if_pos rfl, same, there, Option.map_some] at here
    have last := congrArg Buffer.lastId (Option.some.inj here)
    simp [shownIn] at last
    omega
  cases first with
  | shown found final done console =>
    cases second with
    | shown => rfl
    | stopped asked again same => exact (grows console same).elim
    | missing none failed => cases done.symm.trans failed
  | stopped asked done console =>
    cases second with
    | shown found final again other => exact (grows other console).elim
    | stopped => rfl
    | missing none failed => cases done.symm.trans failed
  | missing none failed console =>
    cases second with
    | shown found final done => cases done.symm.trans failed
    | stopped asked done => cases done.symm.trans failed
    | missing => rfl

inductive Turned (s : Shell) (task : TaskId) (session : SessionId) (scope : Scope) (id : JobId) (t : Shell) :
    Prop where
  | waits (stays : Fetching t task session scope id) (runs : JobWaiting.Runs s.jobs id)
      (unasked : t.isCancelled (.foreground scope) = false) (console : t.console = s.console)
  | ends {way} (ends : Ends s task session scope id t way)

theorem leaveFetched (reachable : Reachable s) {own : Shell.Task} (stands : (task, own) ∈ s.tasks)
    (console : u.console = s.console) (jobs : u.jobs = s.jobs) (wall : u.wall = s.wall)
    (outcomes : u.outcomes = s.outcomes)
    (asked : u.isCancelled (.foreground scope) = true → s.isCancelled (.foreground scope) = true)
    (fetched : Fetched (fetcher session scope) id u run) :
    (Shell.leave task (fetcher session scope) run).jobs = s.jobs ∧
      Turned s task session scope id (Shell.leave task (fetcher session scope) run) := by
  have turn := Shell.turnWithdrawn (Shell.soundReachable reachable) stands
  have recorded {v : Shell} {outcome : Outcome} (same : v.outcomes = u.outcomes) :
      (v.conclude task session (.foreground scope) outcome).outcome? task = some outcome := by
    unfold Shell.outcome?
    rw [Shell.concludeRecords, same, outcomes]
    exact QuotedEcho.lookupAdded turn.unsettled
  cases fetched with
  | @shows job found final =>
    refine ⟨jobs, .ends (.shown (jobs ▸ found) final (recorded rfl) fun other => ?_)⟩
    rw [← console, ← wall]
    exact shownBuffer u.console session other job u.wall
  | missing none =>
    refine ⟨jobs, .ends (.missing (jobs ▸ none) (recorded rfl) ?_)⟩
    rw [← console]
    rfl
  | stops fired => exact ⟨jobs, .ends (.stopped (asked fired) (recorded rfl) console)⟩
  | @waits job found runs unasked =>
    rw [jobs] at found ⊢
    have going := unfinishedRuns found runs
    refine ⟨jobs, .waits ⟨⟨id, s.jobs.notices⟩, rfl, ?_, ?_⟩ going unasked console⟩
    · exact List.mem_append_right _ List.mem_cons_self
    · show UpToDate u.jobs _
      rw [jobs]
      exact upToDateLooked reachable going

theorem fetchingTurn (reachable : Reachable s) (fetching : Fetching s task session scope id) (tie : Shell.Tie) :
    (s.resume tie task).jobs = s.jobs ∧ Turned s task session scope id (s.resume tie task) := by
  obtain ⟨watch, rfl, stands, current⟩ := fetching
  have found := FiredScopes.taskFound reachable stands
  by_cases moves : s.canMove (.waiting (fetcher session scope) (.job watch showJob)) = true
  · have fetched := goOnFetched (s := s.withdraw task) (c := fetcher session scope) rfl moves tie
    have turned : s.resume tie task = Shell.leave task (fetcher session scope)
        (Shell.goOn tie (fetcher session scope) (.job watch showJob) (s.withdraw task)) := by
      unfold Shell.resume
      rw [found]
      dsimp only
      rw [if_pos moves]
    rw [turned]
    exact leaveFetched (u := s.withdraw task) reachable stands rfl rfl rfl rfl (fun asked => asked) fetched
  · have turned : s.resume tie task = { s with ready := s.ready.filter fun other => !decide (other = task) } := by
      unfold Shell.resume
      rw [found]
      dsimp only
      rw [if_neg moves]
    rw [turned]
    obtain ⟨quiet, unasked⟩ := Bool.or_eq_false_iff.mp (Bool.eq_false_iff.mpr moves)
    exact ⟨rfl, .waits ⟨watch, rfl, stands, current⟩ (quietRuns current quiet) unasked rfl⟩

section Called

variable {typed : Text} {piped : Option (List Text)} {call : Call}

theorem calledTurn (reachable : Reachable s) (calls : Calls s task session typed piped call)
    (named : call.command.name = "fg") (read : Builtin.namedJob call.arguments = .ok id) (tie : Shell.Tie) :
    (s.resume tie task).jobs = s.jobs ∧
      Turned s task session (s.opened task session typed).1 id (s.resume tie task) := by
  have handler := calls.handler reachable (d := Builtin.fg) (by simp [Builtin.all]) named
  have program : call.command.handler call.arguments ⟨none, piped⟩ = .awaitJob id showJob := by
    rw [handler]
    show Builtin.runFg call.arguments ⟨none, piped⟩ = _
    unfold Builtin.runFg
    rw [read]
    rfl
  have place : called s task session typed call = fetcher session (s.opened task session typed).1 := by
    unfold called fetcher
    rw [named]
  have fetched := performFetched (c := fetcher session (s.opened task session typed).1) rfl Shell.fullTurn id
    (s.opened task session typed).2
  obtain ⟨ready, opened⟩ := openedQuietly reachable task session typed
  have wall : (s.opened task session typed).2.wall = s.wall := by
    rw [opened]
    rfl
  rw [calls.turn tie, program, place]
  refine leaveFetched reachable (Shell.lookedUp calls.stands) (openedConsole reachable task session typed)
    (openedJobs reachable task session typed) wall calls.begins.kept.outcomes (fun asked => ?_) fetched
  exact absurd asked (by simp [openedUnasked reachable task session typed])

end Called

theorem stepRecords (reachable : Reachable s) (step : Step s t) : ∃ more, t.outcomes = s.outcomes ++ more := by
  have same (outcomes : t.outcomes = s.outcomes) : ∃ more, t.outcomes = s.outcomes ++ more :=
    ⟨[], outcomes.trans (List.append_nil _).symm⟩
  have clean := (Shell.soundReachable reachable).toClean
  cases step with
  | resume tie id =>
    rcases Shell.resumeRecords tie s id with outcomes | ⟨outcome, -, added⟩
    · exact same outcomes
    · exact ⟨_, added⟩
  | closeSession session =>
    obtain ⟨ready, closed⟩ := Shell.closedQuietly clean session
    exact same (by rw [closed])
  | input session line =>
    rcases Shell.takenIn s session line with ⟨ready, taken⟩ | dispatched
    · exact same (by rw [taken])
    · exact same (by rw [dispatched]; rfl)
  | cancel session => exact same (Shell.keptOnScopes s _).outcomes
  | createJob session line =>
    obtain ⟨jobs, ready, started⟩ := OwnRequests.jobStarted s session line none
    have outcomes : (s.startJob session line none).2.outcomes = s.outcomes := by rw [started]
    exact same outcomes
  | killJob id => exact same (Shell.keptKill s id).outcomes
  | watchJob id =>
    have outcomes : (s.newTask.2.look s.newTask.1 id).outcomes = s.outcomes := by
      unfold Shell.look
      split <;> rfl
    exact same outcomes
  | _ => exact same rfl

theorem recordStays {outcome : Outcome} (reachable : Reachable s) (recorded : s.outcome? task = some outcome)
    (later : Later s t) : Reachable t ∧ t.outcome? task = some outcome := by
  induction later with
  | now => exact ⟨reachable, recorded⟩
  | @step t u before move ih =>
    obtain ⟨there, kept⟩ := ih
    obtain ⟨more, added⟩ := stepRecords there move
    refine ⟨there.step move, ?_⟩
    unfold Shell.outcome? at kept ⊢
    rw [added, List.lookup_append, kept]
    rfl

theorem endsRecorded {way : Way} (ends : Ends s task session scope id t way) :
    ∃ outcome, t.outcome? task = some outcome := by
  cases ends with
  | shown found final done | stopped asked done => exact ⟨_, done⟩
  | missing none failed => exact ⟨_, failed⟩

theorem recordedIdle {outcome : Outcome} (reachable : Reachable s) (recorded : s.outcome? task = some outcome)
    (tie : Shell.Tie) : s.resume tie task = s.withdraw task := by
  have gone : s.tasks.lookup task = none := by
    refine List.lookup_eq_none_iff.mpr fun e mem => ?_
    obtain ⟨before, after, same, -⟩ := List.lookup_eq_some_iff.mp recorded
    have ended : (task, outcome) ∈ s.outcomes := same ▸ List.mem_append_right _ List.mem_cons_self
    exact bne_iff_ne.mpr ((Shell.soundReachable reachable).unsettled e mem _ ended)
  unfold Shell.resume
  rw [gone]

theorem fetchingAside (reachable : Reachable s) (fetching : Fetching s task session scope id) (move : Step s t) :
    (∃ tie, t = s.resume tie task) ∨ Fetching t task session scope id := by
  obtain ⟨watch, same, stands, current⟩ := fetching
  have later := upToDateDeeds (ShellJobs.deedsStep (Shell.soundReachable reachable) move) current
  rcases stepJoins move with ⟨tie, other, rfl⟩ | joined
  · by_cases own : other = task
    · exact .inl ⟨tie, own ▸ rfl⟩
    · exact .inr ⟨watch, same, (tasksAfter tie s other).others _ stands (Ne.symm own), later⟩
  · exact .inr ⟨watch, same, joined.stay _ stands, later⟩

theorem fetchingLater (reachable : Reachable s) (fetching : Fetching s task session scope id) (later : Later s t) :
    Reachable t ∧ (Fetching t task session scope id ∨ ∃ u tie way, Later s u ∧ Fetching u task session scope id ∧
      Ends u task session scope id (u.resume tie task) way ∧ Later (u.resume tie task) t) := by
  induction later with
  | now => exact ⟨reachable, .inl fetching⟩
  | @step t u before move ih =>
    obtain ⟨there, waits | ⟨v, tie, way, earlier, stood, ends, since⟩⟩ := ih
    · refine ⟨there.step move, ?_⟩
      rcases fetchingAside there waits move with ⟨tie, rfl⟩ | still
      · cases (fetchingTurn there waits tie).2 with
        | waits stays => exact .inl stays
        | ends ends => exact .inr ⟨t, tie, _, before, waits, ends, .now⟩
      · exact .inl still
    · exact ⟨there.step move, .inr ⟨v, tie, way, earlier, stood, ends, .step since move⟩⟩

structure Shows (job : JobSnapshot) (now : Nat) (b after : Buffer) (copied : List Group) (status : Group) :
    Prop where
  groups : after.groups = b.groups ++ (copied ++ [status])
  copies : contents copied = contents job.output
  described : (status.kind, status.lines) = (.output, Render.text .output (Builtin.describeJob now job))
  fresh : ∀ g ∈ copied ++ [status], b.lastId < g.id.number
  distinct : (after.groups.map Group.id).Nodup

theorem copiesLater {last : Nat} {groups : List Group} {g : Group} (mem : g ∈ copies last groups) :
    last < g.id.number := by
  have numbered := List.mem_map_of_mem (f := fun g : Group => g.id.number) mem
  rw [copiesNumbers, List.mem_range'_1] at numbered
  exact numbered.1

theorem shownShows {b : Buffer} {job : JobSnapshot} {now : Nat} (numbered : Numbered (shownIn b job now)) :
    ∃ copied status, Shows job now b (shownIn b job now) copied status := by
  refine ⟨copies b.lastId job.output, _, List.append_assoc .., copiesContents .., rfl, fun g mem => ?_, ?_⟩
  · rcases List.mem_append.mp mem with copy | status
    · exact copiesLater copy
    · cases List.mem_singleton.mp status
      exact Nat.lt_succ_of_le (Nat.le_add_right _ _)
  · refine List.Nodup.of_map GroupId.number ?_
    rw [List.map_map]
    exact numbered.nodup List.nodup_range'

structure Ended (v : Shell) (task : TaskId) (session : SessionId) (scope : Scope) (id : JobId) (w : Shell)
    (way : Way) : Prop where
  ends : Ends v task session scope id w way
  only : v.isOpen session = true → ∀ other, Ends v task session scope id w other → other = way
  shows : way = .shown → ∀ b, v.console.buffer? session = some b → ∃ job after copied status,
    v.jobs.get? id = some job ∧ job.status.isFinal = true ∧ w.console.buffer? session = some after ∧
      Shows job v.wall b after copied status
  jobs : w.jobs = v.jobs

theorem endsEnded {v w : Shell} {way : Way} (before : Reachable v) (after : Reachable w) (jobs : w.jobs = v.jobs)
    (ends : Ends v task session scope id w way) : Ended v task session scope id w way := by
  refine ⟨ends, fun isOpen other again => ?_, fun shown b there => ?_, jobs⟩
  · obtain ⟨b, there⟩ := Option.isSome_iff_exists.mp ((Shell.soundReachable before).buffers session isOpen)
    exact endsOneWay there again ends
  · subst shown
    cases ends with
    | @shown job found final done console =>
      have here := console session
      rw [if_pos rfl, there] at here
      obtain ⟨copied, status, shows⟩ := shownShows (ConsoleActs.numberedReachable after session _ here)
      exact ⟨job, _, copied, status, found, final, here, shows⟩

inductive Turn (s : Shell) (task : TaskId) (session : SessionId) (scope : Scope) (id : JobId) (first : Shell) :
    Shell → Shell → Prop where
  | first : Turn s task session scope id first s first
  | later {v} (since : Later first v) (waits : Fetching v task session scope id) (tie : Shell.Tie) :
      Turn s task session scope id first v (v.resume tie task)

/- It waits, and neither a turn nor a request to stop does anything to the jobs; or it has ended for good. -/
inductive Course (s : Shell) (task : TaskId) (session : SessionId) (scope : Scope) (id : JobId) (first t : Shell) :
    Prop where
  | waits (waits : Fetching t task session scope id)
      (turns : ∀ tie, (t.resume tie task).jobs = t.jobs ∧ Turned t task session scope id (t.resume tie task))
      (cancels : (t.cancel session).2.jobs = t.jobs ∧ (t.cancel session).2.console = t.console ∧
        Fetching (t.cancel session).2 task session scope id)
  | over {v w way} (turn : Turn s task session scope id first v w) (ended : Ended v task session scope id w way)
      (later : Later w t) (outcome : t.outcome? task = w.outcome? task)
      (idle : ∀ tie, t.resume tie task = t.withdraw task)

structure FetchesOnce (s : Shell) (task : TaskId) (session : SessionId) (scope : Scope) (id : JobId)
    (first : Shell) : Prop where
  jobs : first.jobs = s.jobs
  turned : Turned s task session scope id first
  course : ∀ t, Later first t → Course s task session scope id first t

theorem waitsCourse {first : Shell} (reachable : Reachable t) (waits : Fetching t task session scope id) :
    Course s task session scope id first t := by
  obtain ⟨ready, cancelled⟩ := Shell.cancelledQuietly (Shell.soundReachable reachable).toClean session
  refine .waits waits (fun tie => fetchingTurn reachable waits tie) ?_
  rw [cancelled]
  exact ⟨rfl, rfl, waits⟩

theorem overCourse {first v w : Shell} {way : Way} (before : Reachable v) (after : Reachable w)
    (turn : Turn s task session scope id first v w) (jobs : w.jobs = v.jobs)
    (ends : Ends v task session scope id w way) (later : Later w t) : Course s task session scope id first t := by
  obtain ⟨outcome, recorded⟩ := endsRecorded ends
  obtain ⟨reachable, kept⟩ := recordStays after recorded later
  exact .over turn (endsEnded before after jobs ends) later (kept.trans recorded.symm)
    fun tie => recordedIdle reachable kept tie

variable {typed : Text} {piped : Option (List Text)} {call : Call}

theorem fetchesOnce (reachable : Reachable s) (calls : Calls s task session typed piped call)
    (named : call.command.name = "fg") (read : Builtin.namedJob call.arguments = .ok id) (tie : Shell.Tie) :
    FetchesOnce s task session (s.opened task session typed).1 id (s.resume tie task) := by
  obtain ⟨jobs, turned⟩ := calledTurn reachable calls named read tie
  have after := reachable.step (.resume s tie task)
  refine ⟨jobs, turned, fun t later => ?_⟩
  cases turned with
  | ends ends => exact overCourse reachable after .first jobs ends later
  | waits stays =>
    obtain ⟨there, waits | ⟨v, tie, way, since, stood, ends, later⟩⟩ := fetchingLater after stays later
    · exact waitsCourse there waits
    · have before := (JobEnds.deedsLater after since).1
      exact overCourse before (before.step (.resume v tie task)) (.later since stood tie)
        (fetchingTurn before stood tie).1 ends later

def echoLine : Text := "echo hi"

def fetchLine : Text := "fg 1"

theorem fetchesOnceEcho :
    let s := ((fresh.createJob ⟨0⟩ echoLine).2.execute ⟨0⟩ fetchLine none).2
    let first := s.resume .event ⟨1⟩
    let shown := (first.resume .event ⟨0⟩).resume .event ⟨1⟩
    ∃ call, Calls s ⟨1⟩ ⟨0⟩ fetchLine none call ∧ Builtin.namedJob call.arguments = .ok ⟨1⟩ ∧
      FetchesOnce s ⟨1⟩ ⟨0⟩ (s.opened ⟨1⟩ ⟨0⟩ fetchLine).1 ⟨1⟩ first ∧ first.outcome? ⟨1⟩ = none ∧
      shown.outcome? ⟨1⟩ = some .ok ∧ (shown.console.buffer? ⟨0⟩).map (fun b => b.groups.length) = some 2 := by
  intro s first shown
  have seen : ((s.opened ⟨1⟩ ⟨0⟩ fetchLine).2.readCall ⟨0⟩ (Text.trim fetchLine)).map
      (Option.map fun call => (call.command.name, (Builtin.namedJob call.arguments).toOption)) =
        .ok (some ("fg", some ⟨1⟩)) := by
    decide +kernel
  obtain ⟨call, found, same⟩ := callSeen _ seen
  obtain ⟨named, asked⟩ := Prod.mk.inj same
  have read : Builtin.namedJob call.arguments = .ok ⟨1⟩ := by
    cases result : Builtin.namedJob call.arguments with
    | error error => simp [result, Except.toOption] at asked
    | ok id => simpa [result, Except.toOption] using asked
  have created : Reachable (fresh.createJob ⟨0⟩ echoLine).2 := freshReachable.step (.createJob _ _ _)
  have reachable : Reachable s := created.step (.execute _ _ _ _)
  have stands := executedStands created ⟨0⟩ fetchLine none
  have count : (fresh.createJob ⟨0⟩ echoLine).2.taskCount = 1 := by decide +kernel
  rw [count] at stands
  have calls : Calls s ⟨1⟩ ⟨0⟩ fetchLine none call := ⟨stands, by decide +kernel, by decide +kernel, found⟩
  exact ⟨call, calls, read, fetchesOnce reachable calls named read .event, by decide +kernel, by decide +kernel,
    by decide +kernel⟩

end ConsoleShell.FetchedJobs
