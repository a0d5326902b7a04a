import ConsoleShell.Proofs.FiredScopes
import ConsoleShell.Proofs.JobEnds
import ConsoleShell.Proofs.LineKeeping

/-! Commands that are stopped. A command that is asked to stop while it waits does so in its next turn, and
has done well: it says nothing more than that it rewrites what it has printed, no error is recorded of
it, and no line is kept from the session. A job that is killed has no error either. -/
namespace ConsoleShell.Cancellation
open Actions
open Confinement (request?)
open FiredScopes (Stopping)
open Foreground (Running running running? runningMember)
open JobEnds (carried?)
open Offstage (Later)
open RequestTurns (Registered registeredMove moveState turn?)
open Shell (Kept Reachable)

def outline (b : Buffer) : List (GroupId × OutputKind) := b.groups.map fun g => (g.id, g.kind)

/- What is printed stands where it stood, and nothing more is printed. -/
structure Hushed (s t : Shell) : Prop where
  consoles : ∀ session, (t.console.buffer? session).map outline = (s.console.buffer? session).map outline
  outputs : ∀ job, (t.jobs.table.get? job).map (fun record => outline record.output) =
    (s.jobs.table.get? job).map fun record => outline record.output

variable {s t u : Shell} {c : Invocation} {p : Program} {id : TaskId} {task : Shell.Task} {tie : Shell.Tie}

theorem Hushed.refl (s : Shell) : Hushed s s := ⟨fun _ => rfl, fun _ => rfl⟩

theorem Hushed.trans (first : Hushed s t) (second : Hushed t u) : Hushed s u :=
  ⟨fun session => (second.consoles session).trans (first.consoles session),
    fun job => (second.outputs job).trans (first.outputs job)⟩

theorem outlineUpdate (b : Buffer) (group : GroupId) (text : Text) :
    outline (b.update group text).2 = outline b := by
  unfold Buffer.update
  split
  · rfl
  · dsimp only
    split
    · rfl
    · unfold outline
      rw [List.map_map]
      refine List.map_congr_left fun g _ => ?_
      dsimp only [Function.comp]
      split <;> rfl

theorem hushedUpdate (s : Shell) (c : Invocation) (group : GroupId) (text : Text) :
    Hushed s (s.update c group text).2 := by
  unfold Shell.update
  cases c.origin.job? with
  | none =>
    refine ⟨fun session => ?_, fun _ => rfl⟩
    change ((s.console.update c.session group text).2.buffer? session).map outline = _
    unfold Console.update
    split
    · rfl
    · rename_i b found
      have same := outlineUpdate b group text
      split
      · rename_i changed updated
        rw [updated] at same
        unfold Console.publish Console.setBuffer Console.buffer?
        dsimp only
        rw [Dict.getInsert]
        split
        · rename_i own
          subst own
          unfold Console.buffer? at found
          rw [found, Option.map_some, Option.map_some, same]
        · rfl
      · rfl
      · rfl
  | some job =>
    refine ⟨fun _ => rfl, fun other => ?_⟩
    change ((s.jobs.onOutput job fun b => b.update group text).2.table.get? other).map _ = _
    unfold Jobs.onOutput
    split
    · rfl
    · rename_i record found
      dsimp only
      rw [Dict.getInsert]
      split
      · rename_i own
        rw [own, found, Option.map_some, Option.map_some, outlineUpdate]
      · rfl

theorem updateRequests (s : Shell) (c : Invocation) (group : GroupId) (text : Text) :
    (s.update c group text).2.requests = s.requests := by
  unfold Shell.update
  split <;> rfl

structure GivenUp (s : Shell) (requests : Requests) (run : Halt × Shell) : Prop where
  halt : run.1 = .ended (.failed .cancelled)
  hushed : Hushed s run.2
  requests : run.2.requests = requests

theorem stopsPerform (stops : Stops p) (left : Nat) :
    GivenUp s s.requests (Shell.perform c left p s) := by
  induction p generalizing s with
  | fail failure =>
    cases stops
    exact ⟨rfl, .refl s, rfl⟩
  | update group text next ih =>
    obtain ⟨halt, hushed, requests⟩ := ih _ (stops _) (s := (s.update c group text).2)
    exact ⟨halt, (hushedUpdate s c group text).trans hushed,
      requests.trans (updateRequests s c group text)⟩
  | _ => exact stops.elim

def suspended? : Shell.Task → Option Invocation
  | .program c _ | .waiting c _ => some c
  | .line .. | .job .. | .watcher _ => none

/- Whether what a task waits for has happened. Whoever waits for a job is woken for others as well. -/
def isOver (s : Shell) : Shell.Task → Bool
  | .waiting _ (.job watch _) => !(s.jobs.table.get? watch.job).any fun record => record.status = .running
  | .waiting _ wait => s.hasHappened wait
  | _ => false

def asked? : Shell.Task → Option RequestId
  | .waiting _ wait => request? wait
  | _ => none

def without (s : Shell) (task : Shell.Task) : Requests :=
  ((asked? task).map s.requests.abandon).getD s.requests

theorem stopsWaiting {wait : Wait} (each : WaitEach Orderly wait) (asked : s.isCancelled c.origin = true)
    (waits : isOver s (.waiting c wait) = false) :
    GivenUp s (without s (.waiting c wait)) (Shell.goOn tie c wait s) := by
  unfold Shell.goOn
  rw [asked]
  cases wait with
  | sleep due stopped next =>
    obtain ⟨span, each⟩ := each
    have early : s.hasHappened (.sleep due stopped next) = false := waits
    rw [early]
    exact stopsPerform each.1 _
  | line request next =>
    have pends : s.hasHappened (.line request next) = false := waits
    rw [pends]
    exact ⟨rfl, ⟨fun _ => rfl, fun _ => rfl⟩, rfl⟩
  | answer request next =>
    have pends : s.hasHappened (.answer request next) = false := waits
    rw [pends]
    exact ⟨rfl, ⟨fun _ => rfl, fun _ => rfl⟩, rfl⟩
  | job watch next =>
    -- Whoever is woken for another job looks again, and finds that its own still runs.
    have given : GivenUp s s.requests (Shell.perform c Shell.fullTurn (.awaitJob watch.job next) s) := by
      have runs : JobWaiting.Runs s.jobs watch.job := by
        cases found : s.jobs.table.get? watch.job with
        | none => simp [isOver, found] at waits
        | some record => exact ⟨record, found, by simpa [isOver, found] using waits⟩
      obtain ⟨record, found, running⟩ := runs
      unfold Shell.perform
      simp only [Jobs.watch, Jobs.look, Jobs.get?, found, Option.map_some, JobSnapshot.ofJob, running,
        JobStatus.isFinal, asked]
      exact ⟨rfl, .refl s, rfl⟩
    cases s.hasHappened (.job watch next) with
    | false => exact ⟨rfl, .refl s, rfl⟩
    | true =>
      cases tie with
      | event => exact given
      | cancellation => exact ⟨rfl, .refl s, rfl⟩
  | cancel next => exact each.1.elim

theorem stopsSuspended (h : Reachable s) (listed : (id, task) ∈ s.tasks) (suspended : suspended? task = some c)
    (asked : s.isCancelled c.origin = true) (waits : isOver s task = false) (tie : Shell.Tie) :
    ∃ run, Shell.Runs tie s id c run ∧ s.resume tie id = Shell.leave id c run ∧
      GivenUp (s.withdraw id) (without s task) run ∧ c.command.isSome = true := by
  have stands := FiredScopes.taskFound h listed
  have each := eachReachable everyOrderly h _ listed
  cases task with
  | line | job | watcher => cases suspended
  | program other program =>
    cases suspended
    obtain ⟨named, ⟨span, stopped, next, rfl⟩, each⟩ := each
    refine ⟨_, .program stands, ?_, ?_, named⟩
    · unfold Shell.resume
      rw [stands]
      rfl
    · have rest : (s.withdraw id).isCancelled c.origin = true := asked
      unfold Shell.perform
      rw [rest]
      exact stopsPerform each.1 _
  | waiting other wait =>
    cases suspended
    obtain ⟨named, each⟩ := each
    refine ⟨_, .waited stands, ?_, stopsWaiting each asked waits, named⟩
    have moves : s.canMove (.waiting c wait) = true := by simp [Shell.canMove, asked]
    unfold Shell.resume
    rw [stands]
    exact if_pos moves

def Moved (r q : Requests) : Prop := ∃ moves : List RequestMove, q = moves.foldl RequestMove.run r

theorem movedAsked {session : SessionId} {r q : Requests} {owners others : List SessionId}
    (asked : OwnRequests.Asked session r owners q others) : Moved r q := by
  induction asked with
  | none => exact ⟨[], rfl⟩
  | @move q others m before own ih =>
    obtain ⟨moves, rfl⟩ := ih
    exact ⟨moves ++ [m], by rw [List.foldl_append]; rfl⟩

theorem movedStep (h : Reachable s) (step : Shell.Step s t) : Moved s.requests t.requests := by
  have sound := Shell.soundReachable h
  rcases OwnRequests.stepOutside sound step with ⟨tie, id, rfl⟩ | outside
  · obtain ⟨owners, filed⟩ := OwnRequests.filedReachable h
    cases found : s.tasks.lookup id with
    | none =>
      unfold Shell.resume
      rw [found]
      exact ⟨[], rfl⟩
    | some task =>
      have turn := Confinement.resumeTurn sound found tie
      cases own : Confinement.session? task with
      | some session =>
        obtain ⟨others, turned⟩ := OwnRequests.taskTurned filed (Shell.lookedUp found) own turn
        exact movedAsked turned.asked
      | none =>
        generalize s.resume tie id = t at turn
        cases turn with
        | waits => exact ⟨[], rfl⟩
        | line other foreground turn => cases own.symm.trans other
        | command other place turn => cases own.symm.trans other
        | watcher same => exact ⟨[], (OwnRequests.lookTasks _ _ _).1⟩
  · obtain ⟨m, -, moved⟩ := outside.requests
    exact ⟨[m], moved⟩

theorem closedMoved {r q : Requests} {owners : List SessionId} (registered : Registered r owners)
    {request : RequestId} {owner : SessionId} (owned : owners[request.index]? = some owner)
    (closed : r.state request = .closed) (moved : Moved r q) : q.state request = .closed := by
  obtain ⟨moves, rfl⟩ := moved
  induction moves generalizing r owners with
  | nil => exact closed
  | cons m rest ih =>
    obtain ⟨inside, -⟩ := List.getElem?_eq_some_iff.mp owned
    refine ih (registeredMove registered m) ((List.getElem?_append_left inside).trans owned) ?_
    rw [moveState registered m owned, closed]
    cases turn? owner request m with
    | none => rfl
    | some turn => cases turn <;> rfl

theorem movedLater (h : Reachable s) (later : Later s t) : Reachable t ∧ Moved s.requests t.requests := by
  induction later with
  | now => exact ⟨h, [], rfl⟩
  | step before move ih =>
    obtain ⟨reachable, moves, same⟩ := ih
    obtain ⟨more, next⟩ := movedStep reachable move
    exact ⟨reachable.step move, moves ++ more, by rw [next, same, List.foldl_append]⟩

structure EndsWell (s : Shell) (id : TaskId) (c : Invocation) (task : Shell.Task) (t : Shell) : Prop where
  outcome : t.outcomes = s.outcomes ++ [(id, .ok)]
  gone : ∀ e ∈ t.tasks, e.1 ≠ id
  hushed : ∀ session, (t.console.buffer? session).map outline = (s.console.buffer? session).map outline
  request : ∀ request, asked? task = some request →
    ∀ after, Later t after → after.requests.state request = .closed
  lines : (asked? task).isSome = true ∨ s.requests.hasPending c.session = false →
    ∀ line, (t.handleInput c.session line).1 = .dispatched ⟨t.taskCount⟩

theorem leftWell {scope : Scope} (named : c.command.isSome = true) (place : c.origin = .foreground scope)
    {run : Halt × Shell} (halt : run.1 = .ended (.failed .cancelled)) :
    Shell.leave id c run = (run.2.finishScope c.session scope).recordOutcome id .ok := by
  obtain ⟨name, command⟩ := Option.isSome_iff_exists.mp named
  rw [Shell.leaveCommand halt command, place]
  rfl

/- A command that waits for a line is the one that its session would hand it to. -/
theorem pendingAsked {owners : List SessionId} (filed : OwnRequests.Filed s owners)
    (listed : (id, task) ∈ s.tasks) (suspended : suspended? task = some c) (waits : isOver s task = false)
    {request : RequestId} (asks : asked? task = some request) :
    owners[request.index]? = some c.session ∧
      s.requests.pending.get? c.session = some request := by
  have files := filed.files _ listed
  cases task with
  | line | job | watcher | program => cases asks
  | waiting other wait =>
    cases suspended
    obtain ⟨owned, -⟩ := files request asks
    refine ⟨owned, filed.registered.pending c.session request owned ?_⟩
    cases wait with
    | line other next | answer other next =>
      cases asks
      simpa [isOver, Shell.hasHappened] using waits
    | sleep due stopped next | job watch next | cancel next => cases asks

theorem dispatchesLine {session : SessionId} (free : s.requests.hasPending session = false) (line : Text) :
    (s.handleInput session line).1 = .dispatched ⟨s.taskCount⟩ := by
  have refused := (LineKeeping.deliverTaken s.requests session line).trans free
  unfold Shell.handleInput
  generalize s.requests.deliver session line = delivered at refused
  obtain ⟨taken, requests⟩ := delivered
  cases refused
  rfl

theorem endsWell {scope : Scope} (h : Reachable s) (listed : (id, task) ∈ s.tasks)
    (suspended : suspended? task = some c) (place : c.origin = .foreground scope)
    (asked : s.isCancelled c.origin = true) (waits : isOver s task = false) (tie : Shell.Tie) :
    EndsWell s id c task (s.resume tie id) := by
  obtain ⟨run, runs, turn, given, named⟩ := stopsSuspended h listed suspended asked waits tie
  have kept := runs.kept
  have requests : (s.resume tie id).requests = without s task := by
    rw [turn, leftWell named place given.halt]
    exact given.requests
  have count : (s.resume tie id).taskCount = s.taskCount := by
    rw [turn, leftWell named place given.halt]
    exact kept.taskCount
  obtain ⟨owners, filed⟩ := OwnRequests.filedReachable h
  have closed (request) : (s.requests.abandon request).state request = .closed :=
    (RequestTurns.stateClosed s.requests request request).trans (if_pos rfl)
  refine ⟨?_, ?_, fun session => ?_, fun request asks after later => ?_, fun alone line => ?_⟩
  · rw [turn, leftWell named place given.halt]
    exact congrArg (· ++ [(id, Outcome.ok)]) kept.outcomes
  · rw [turn, leftWell named place given.halt]
    intro e mem
    have rest : e ∈ (s.withdraw id).tasks := kept.tasks ▸ mem
    simpa using (List.mem_filter.mp rest).2
  · rw [turn, leftWell named place given.halt]
    exact given.hushed.consoles session
  · obtain ⟨owned, -⟩ := pendingAsked filed listed suspended waits asks
    have moved := (movedLater (h.step (.resume s tie id)) later).2
    rw [requests, without, asks] at moved
    have dropped : Registered (s.requests.abandon request) owners :=
      RequestTurns.registeredStill filed.registered (m := .drop request) rfl
    exact closedMoved dropped owned (closed request) moved
  · refine dispatchesLine ?_ line
    rw [requests]
    cases asks : asked? task with
    | none =>
      rw [asks] at alone
      rw [without, asks]
      exact alone.resolve_left (by simp)
    | some request =>
      obtain ⟨-, pending⟩ := pendingAsked filed listed suspended waits asks
      have still : (s.requests.abandon request).pending.get? c.session = some request := pending
      rw [without, asks]
      simp [Requests.hasPending, still, closed request]

structure EndsKilled (s : Shell) (id : TaskId) (job : JobId) (t : Shell) : Prop where
  gone : ∀ e ∈ t.tasks, e.1 ≠ id
  record : ∀ after, t.jobs.table.get? job = some after → after.status = .killed ∧ after.error = none
  outputs : ∀ other, (t.jobs.table.get? other).map (fun record => outline record.output) =
    (s.jobs.table.get? other).map fun record => outline record.output
  console : t.console = s.console
  outcomes : t.outcomes = s.outcomes

theorem leftKilled {job : JobId} {signal : SignalId} (named : c.command.isSome = true)
    (place : c.origin = .job job signal) {run : Halt × Shell}
    (halt : run.1 = .ended (.failed .cancelled)) :
    Shell.leave id c run = run.2.settleJob job .completed := by
  obtain ⟨name, command⟩ := Option.isSome_iff_exists.mp named
  rw [Shell.leaveCommand halt command, place]
  rfl

theorem hushedSettle (s : Shell) (job : JobId) (result : JobResult) :
    Hushed s (s.settleJob job result) := by
  refine ⟨fun _ => rfl, fun other => ?_⟩
  change ((s.jobs.settle job result s.wall).table.get? other).map _ = _
  rcases s.jobs.settleCases job result s.wall with ⟨record, found, -, same⟩ | ⟨-, same⟩
  · rw [same]
    change ((s.jobs.table.insert job _).get? other).map _ = _
    rw [Dict.getInsert]
    split
    · rename_i own
      rw [own, found]
      rfl
    · rfl
  · rw [same]

theorem endsKilled {job : JobId} {signal : SignalId} (h : Reachable s) (listed : (id, task) ∈ s.tasks)
    (suspended : suspended? task = some c) (place : c.origin = .job job signal)
    (asked : s.isCancelled c.origin = true) (waits : isOver s task = false) (tie : Shell.Tie)
    (record : ∀ after, (s.resume tie id).jobs.table.get? job = some after →
      after.status = .killed ∧ after.error = none) :
    EndsKilled s id job (s.resume tie id) := by
  obtain ⟨run, runs, turn, given, named⟩ := stopsSuspended h listed suspended asked waits tie
  have own : Confinement.job? task = some job := by
    cases task <;> cases suspended <;> exact congrArg Origin.job? place
  have unseen := Offstage.offstageTurn h (Offstage.taskedListed h listed own) tie
  refine ⟨?_, record, fun other => ?_, unseen.console, unseen.outcomes⟩
  · rw [turn, leftKilled named place given.halt]
    intro e mem
    have rest : e ∈ (s.withdraw id).tasks := runs.kept.tasks ▸ mem
    simpa using (List.mem_filter.mp rest).2
  · rw [turn, leftKilled named place given.halt]
    exact (given.hushed.trans (hushedSettle _ _ _)).outputs other

structure CancelsWell (s : Shell) : Prop where
  foreground : ∀ id task c scope t u tie, (id, task) ∈ s.tasks → suspended? task = some c →
    c.origin = .foreground scope → Stopping s c.session t → Later t u → (id, task) ∈ u.tasks →
    isOver u task = false → EndsWell u id c task (u.resume tie id)
  killed : ∀ id task c job signal, (id, task) ∈ s.tasks → suspended? task = some c →
    c.origin = .job job signal → JobWaiting.Runs s.jobs job →
    (s.killJob job).1 = .ok .killed ∧ ∀ u, Later (s.killJob job).2 u →
      (∀ after, u.jobs.table.get? job = some after → after.status = .killed ∧ after.error = none) ∧
      ((id, task) ∈ u.tasks → isOver u task = false → ∀ tie, EndsKilled u id job (u.resume tie id))

theorem suspendedRunning {scope : Scope} (listed : (id, task) ∈ s.tasks) (suspended : suspended? task = some c)
    (place : c.origin = .foreground scope) : ⟨id, c.session, scope⟩ ∈ running s := by
  refine runningMember.mpr ⟨task, listed, ?_⟩
  cases task <;> cases suspended <;> simp [running?, place]

theorem cancelsWell (h : Reachable s) : CancelsWell s where
  foreground id task c scope t u tie listed suspended place stopping later stands waits := by
    have fired := FiredScopes.stoppingFires h (suspendedRunning listed suspended place) stopping
    obtain ⟨reachable, still⟩ :=
      FiredScopes.firedLater (h.step (FiredScopes.stoppingStep stopping)) later fired
    have asked : u.isCancelled c.origin = true := by
      rw [place]
      exact still
    exact endsWell reachable stands suspended place asked waits tie
  killed id task c job signal listed suspended place runs := by
    obtain ⟨record, found, running⟩ := runs
    refine ⟨(JobEnds.killEnds h found running).1, fun u later => ?_⟩
    obtain ⟨reachable, fired, ends⟩ := JobEnds.killedLater h found running later
    refine ⟨ends, fun stands waits tie => ?_⟩
    have own : carried? task = some (job, signal) := by
      cases task <;> cases suspended <;> simp [carried?, place]
    have asked : u.isCancelled c.origin = true := by
      rw [place, ← JobEnds.ownSignal h listed own found]
      exact fired
    have after := (JobEnds.killedLater h found running (later.step (.resume u tie id))).2.2
    exact endsKilled reachable stands suspended place asked waits tie after

def reading : Shell := (Offstage.opened.execute ⟨0⟩ "read x" none).2.resume .event ⟨0⟩

def crowded : Shell := (Foreground.sleeping.execute ⟨0⟩ "sleep 10" none).2

def dozing : Shell := (Offstage.opened.createJob ⟨0⟩ "sleep 10").2.resume .event ⟨0⟩

theorem readingReachable : Reachable reading :=
  (Offstage.openedReachable.step (.execute _ ⟨0⟩ "read x" none)).step (.resume _ .event ⟨0⟩)

theorem crowdedReachable : Reachable crowded :=
  ((Offstage.openedReachable.step (.execute _ ⟨0⟩ "sleep 10" none)).step (.resume _ .event ⟨0⟩)).step
    (.execute Foreground.sleeping ⟨0⟩ "sleep 10" none)

theorem dozingReachable : Reachable dozing :=
  (Offstage.openedReachable.step (.createJob _ ⟨0⟩ "sleep 10")).step (.resume _ .event ⟨0⟩)

theorem foundStill {α : Type} {tell : Shell.Task → α} {told : α}
    (state : (s.tasks.lookup id).map tell = some told)
    (stays : ∀ task, (id, task) ∈ s.tasks → (id, task) ∈ t.tasks) :
    ∃ task, (id, task) ∈ s.tasks ∧ (id, task) ∈ t.tasks ∧ tell task = told := by
  obtain ⟨task, found, same⟩ := Option.map_eq_some_iff.mp state
  have listed := Shell.lookedUp found
  exact ⟨task, listed, stays task listed, same⟩

theorem cancelTasks (s : Shell) (session : SessionId) : (s.cancel session).2.tasks = s.tasks :=
  (Shell.keptOnScopes s (s.scopes.cancel session)).tasks

theorem cancelsWellStopped :
    let reader : Invocation := ⟨⟨0⟩, .foreground ⟨⟨1⟩, ⟨0⟩⟩, some "read"⟩
    let sleeper : Invocation := ⟨⟨0⟩, .foreground ⟨⟨1⟩, ⟨0⟩⟩, some "sleep"⟩
    let interrupted := (reading.cancel ⟨0⟩).2
    let superseded := crowded.resume .event ⟨1⟩
    let killed := (dozing.killJob ⟨1⟩).2
    (∃ task, asked? task = some ⟨0⟩ ∧
      EndsWell interrupted ⟨0⟩ reader task (interrupted.resume .event ⟨0⟩)) ∧
    (∃ task, EndsWell superseded ⟨0⟩ sleeper task (superseded.resume .event ⟨0⟩)) ∧
    EndsKilled killed ⟨0⟩ ⟨1⟩ (killed.resume .event ⟨0⟩) := by
  intro reader sleeper interrupted superseded killed
  refine ⟨?_, ?_, ?_⟩
  · have state : (reading.tasks.lookup ⟨0⟩).map
        (fun task => (suspended? task, asked? task, isOver interrupted task)) =
          some (some reader, some ⟨0⟩, false) := by decide +kernel
    obtain ⟨task, listed, still, same⟩ := foundStill state fun _ mem =>
      (cancelTasks reading ⟨0⟩).symm ▸ mem
    simp only [Prod.mk.injEq] at same
    obtain ⟨suspended, asks, waits⟩ := same
    exact ⟨task, asks, (cancelsWell readingReachable).foreground _ _ reader _ _ _ .event listed
      suspended rfl .interrupt .now still waits⟩
  · have state : (crowded.tasks.lookup ⟨0⟩).map
        (fun task => (suspended? task, isOver superseded task)) = some (some sleeper, false) := by
      decide +kernel
    have begins : Foreground.begins .event crowded ⟨1⟩ = [(⟨0⟩, ⟨⟨2⟩, ⟨1⟩⟩)] := by decide +kernel
    have stopping : Stopping crowded ⟨0⟩ superseded := .supersede (begins ▸ List.mem_cons_self)
    obtain ⟨task, listed, still, same⟩ := foundStill state fun _ mem =>
      (tasksAfter .event crowded ⟨1⟩).others _ mem (by simp)
    simp only [Prod.mk.injEq] at same
    obtain ⟨suspended, waits⟩ := same
    exact ⟨task, (cancelsWell crowdedReachable).foreground _ _ sleeper _ _ _ .event listed suspended rfl
      stopping .now still waits⟩
  · let worker : Invocation := ⟨⟨0⟩, .job ⟨1⟩ ⟨0⟩, some "sleep"⟩
    have state : (dozing.tasks.lookup ⟨0⟩).map
        (fun task => (suspended? task, isOver killed task)) = some (some worker, false) := by
      decide +kernel
    have running : (dozing.jobs.table.get? ⟨1⟩).map Job.status = some .running := by decide +kernel
    obtain ⟨task, listed, still, same⟩ := foundStill state fun _ mem =>
      (Shell.keptKill dozing ⟨1⟩).tasks.symm ▸ mem
    simp only [Prod.mk.injEq] at same
    obtain ⟨suspended, waits⟩ := same
    obtain ⟨-, ends⟩ := (cancelsWell dozingReachable).killed _ _ worker _ _ listed suspended rfl
      (Option.map_eq_some_iff.mp running)
    exact (ends killed .now).2 still waits .event

end ConsoleShell.Cancellation
