import ConsoleShell.Proofs.CalledLines
import ConsoleShell.Proofs.Heedful
import ConsoleShell.Proofs.SessionTables

/-! Turns of the tasks of a session that is gone. A command that was under way comes to its end and brings nothing
back. A line that had not begun is read and run all the same, and what it leaves is exactly a command that
waits, a job, or the wish to leave. -/
namespace ConsoleShell.ClosedTurns
open CalledLines (Calls called)
open Confinement
open Heedful (Quits Forgets)
open SessionTables (Respects)
open Shell (Reachable Sound)

def Stopped (session : SessionId) (j : Jobs Echo) : Prop :=
  ∀ id job, j.table.get? id = some job → job.session = session → job.status ≠ .running

structure Quiet (session : SessionId) (s : Shell) : Prop where
  request : s.requests.pending.get? session = none
  jobs : Stopped session s.jobs
  exit : session ∉ s.exits

structure Gone (session : SessionId) (s : Shell) : Prop extends Quiet session s where
  scope : s.scopes.live.get? session = none
  data : s.sessions.get? session = none
  buffer : s.console.buffer? session = none

def firstRun (s : Shell) (id : TaskId) (session : SessionId) (typed : Text) (piped : Option (List Text))
    (call : Call) : Halt × Shell :=
  Shell.perform (called s id session typed call) Shell.fullTurn
    (call.command.handler call.arguments ⟨none, piped⟩) (s.opened id session typed).2

inductive Reopens (session : SessionId) (s : Shell) : Shell → Prop where
  | command {tie id typed piped call} (calls : Calls s id session typed piped call)
      (unended : ∀ ending, (firstRun s id session typed piped call).1 ≠ .ended ending) :
      Reopens session s (s.resume tie id)
  | job {tie id typed piped line} (stands : s.tasks.lookup id = some (.line session typed piped))
      (marked : Background.command? (Text.trim typed) = some line) : Reopens session s (s.resume tie id)
  | exit {tie id typed piped call} (calls : Calls s id session typed piped call) (quits : Quits call) :
      Reopens session s (s.resume tie id)
  | jobExit {tie id job signal line piped call}
      (stands : s.tasks.lookup id = some (.job session job signal line piped))
      (read : (s.withdraw id).readCall session line = .ok (some call)) (quits : Quits call) :
      Reopens session s (s.resume tie id)

def Unbegun (session : SessionId) : Shell.Task → Prop
  | .line owner _ _ | .job owner _ _ _ _ => owner = session
  | .program _ _ | .waiting _ _ | .watcher _ => False

variable {s t u : Shell} {session other : SessionId} {tie : Shell.Tie} {id : TaskId} {task : Shell.Task}
  {c : Invocation} {run : Halt × Shell} {call : Call} {line typed : Text} {piped : Option (List Text)}

theorem Gone.same (gone : Gone session s) (scopes : t.scopes = s.scopes) (requests : t.requests = s.requests)
    (jobs : t.jobs = s.jobs) (sessions : t.sessions = s.sessions)
    (buffers : t.console.buffers = s.console.buffers) (exits : t.exits = s.exits) : Gone session t where
  request := requests ▸ gone.request
  jobs := jobs ▸ gone.jobs
  exit := exits ▸ gone.exit
  scope := scopes ▸ gone.scope
  data := sessions ▸ gone.data
  buffer := (congrArg (·.get? session) buffers).trans gone.buffer

theorem stoppedWorks {own : Option JobId} {j k : Jobs Echo} (stopped : Stopped session j)
    (sorted : j.table.Sorted) (works : Works own j k) : Stopped session k := by
  intro id after there owned running
  obtain ⟨before, found, keeps⟩ := (works.kept sorted).jobs id after there
  exact stopped id before found (keeps.session ▸ owned) (Crashes.keepsRunning keeps running)

theorem stoppedCreate {j : Jobs Echo} (stopped : Stopped session j) (apart : other ≠ session) (line : Text)
    (now : Nat) : Stopped session (j.create other line now).2 := by
  intro id job there owned
  change (j.table.insert _ _).get? id = some job at there
  rw [Dict.getInsert] at there
  split at there
  · cases there
    exact absurd owned apart
  · exact stopped id job there owned

theorem createdRuns (j : Jobs Echo) (session : SessionId) (line : Text) (now : Nat) :
    ¬ Stopped session (j.create session line now).2 := by
  intro stopped
  have made : (j.create session line now).2.table.get? ⟨j.lastId + 1⟩ = some _ :=
    (Dict.getInsert j.table _ _ _).trans (if_pos rfl)
  exact stopped _ _ made rfl rfl

theorem stoppedTurn (h : Reachable s) (stopped : Stopped session s.jobs) (foreign : session? task ≠ some session)
    (turn : TaskTurn s id task t) : Stopped session t.jobs := by
  have sorted := Crashes.sortedReachable h
  cases turn with
  | waits => exact stopped
  | @line other t own foreground turn =>
    have apart : other ≠ session := fun same => foreign (same ▸ own)
    cases turn with
    | noted noted =>
      rw [noted.jobs]
      exact stopped
    | @job u t command piped before after =>
      rw [after.jobs, ShellJobs.deedsStart, before.jobs]
      exact stoppedCreate stopped apart command u.wall
    | command before own foreground turn =>
      have works := turn.within.jobs
      rw [before.jobs] at works
      exact stoppedWorks stopped sorted works
  | command own place turn => exact stoppedWorks stopped sorted turn.within.jobs
  | watcher same =>
    rw [Crashes.lookedJobs]
    exact stopped

theorem finishEmpties (scopes : Scopes Echo) (scope : ScopeId)
    (own : ∀ live, scopes.live.get? session = some live → live.id = scope) :
    (scopes.finish session scope).2.live.get? session = none := by
  obtain ⟨-, -, live⟩ := Foreground.finished scopes session scope
  refine Option.eq_none_iff_forall_ne_some.mpr fun kept there => ?_
  obtain ⟨before, other⟩ := (live session kept).mp there
  exact other ⟨rfl, own kept before⟩

theorem finishStays {scopes : Scopes Echo} (empty : scopes.live.get? session = none) (scope : ScopeId) :
    (scopes.finish session scope).2.live.get? session = none :=
  finishEmpties scopes scope fun live there => by rw [empty] at there; cases there

theorem concludeScopes (s : Shell) (id : TaskId) (session : SessionId) (scope : Scope) (outcome : Outcome) :
    (s.conclude id session (.foreground scope) outcome).scopes = (s.scopes.finish session scope.id).2 := by
  unfold Shell.conclude
  dsimp only
  split <;> rfl

theorem concludeStays (empty : s.scopes.live.get? session = none) (id : TaskId) (origin : Origin)
    (outcome : Outcome) : (s.conclude id session origin outcome).scopes.live.get? session = none := by
  cases origin with
  | foreground scope =>
    rw [concludeScopes]
    exact finishStays empty scope.id
  | job job signal =>
    unfold Shell.conclude
    dsimp only
    split <;> exact empty

theorem leaveStays (empty : run.2.scopes.live.get? c.session = none) (id : TaskId) :
    (Shell.leave id c run).scopes.live.get? c.session = none := by
  obtain ⟨halt, t⟩ := run
  unfold Shell.leave
  cases halt with
  | waiting wait | yielded rest => exact empty
  | ended ending =>
    dsimp only
    split
    · exact concludeStays empty id _ _
    · split <;> exact empty
    · exact finishStays empty _

theorem passedEmpties (h : Sound s) (session : SessionId) :
    ((s.scopes.begin session).2.2.finish session (s.scopes.begin session).1.id).2.live.get? session = none := by
  obtain ⟨scope, scopes⟩ := Foreground.begunScopes h session
  rw [scope, scopes]
  refine finishEmpties _ _ fun live there => ?_
  rw [(Foreground.replaced s.scopes session).2.1, Dict.getInsert, if_pos rfl] at there
  exact Option.some.inj there ▸ rfl

def Awaits (c : Invocation) (run : Halt × Shell) : Prop :=
  (∃ wait, run.1 = .waiting wait) ∧
    ∃ scope, c.origin = .foreground scope ∧ run.2.scopes.signals.isFired scope.signal = false

theorem grantedUnasked {request : RequestId} (granted : s.awaitLine c = (.ok request, t)) :
    ∃ scope, c.origin = .foreground scope ∧ t.scopes.signals.isFired scope.signal = false := by
  unfold Shell.awaitLine at granted
  split at granted
  · cases granted
  · rename_i scope place
    split at granted
    · cases granted
    · rename_i uncancelled
      cases granted
      rw [place] at uncancelled
      exact ⟨scope, place, Bool.eq_false_iff.mpr uncancelled⟩

theorem performedAwaits (performed : Performed c s run) : run.2.requests = s.requests ∨ Awaits c run := by
  cases performed with
  | idle confined none => exact .inl confined.requests
  | asks confined granted waits => exact .inr ⟨⟨_, rfl⟩, grantedUnasked granted⟩

theorem goesOnAwaits {wait : Wait} (empty : s.requests.pending.get? session = none)
    (goesOn : GoesOn c wait s run) : run.2.requests.pending.get? session = none ∨ Awaits c run := by
  cases goesOn with
  | stays => exact .inl empty
  | free none performed =>
    refine (performedAwaits performed).imp_left fun same => ?_
    rw [same, empty]
  | @looks request m run waited look performed =>
    have untouched : ¬ RequestTurns.Touches session m := by
      rcases look with rfl | rfl
      · exact not_false
      · exact not_false
    refine (performedAwaits performed).imp_left fun same => ?_
    rw [same]
    exact (RequestTurns.placeStays s.requests untouched).trans empty

theorem heedfulStays {name : Text} {p : Program} (heedful : Actions.Heedful name p) :
    Respects (fun _ exits => session ∉ exits) other p := by
  cases p with
  | change what next =>
    intro s stays
    cases what with
    | requestExit => exact heedful.elim
    | _ => exact stays
  | _ => trivial

theorem calledStays (provided : Shell.Provided s.registry.commands)
    (read : s.readCall other line = .ok (some call)) (remains : ¬ Quits call) (caller : Caller) (left : Nat)
    (stays : session ∉ s.exits) :
    session ∉ (Shell.perform c left (call.command.handler call.arguments caller) s).2.exits := by
  by_cases forgets : Forgets call
  · rw [Heedful.forgetsOnly provided read forgets]
    exact stays
  · rcases Heedful.calledHeedful provided read forgets remains caller with crash | each
    · rw [crash]
      exact stays
    · exact SessionTables.performs (P := fun _ exits => session ∉ exits)
        (each.mono fun _ => heedfulStays) left stays

theorem quietConclude (quiet : Quiet session s) (sorted : s.jobs.table.Sorted) (id : TaskId)
    (other : SessionId) (origin : Origin) (outcome : Outcome) :
    Quiet session (s.conclude id other origin outcome) := by
  have concluded := confinedConclude (c := ⟨other, origin, none⟩) s id outcome
  exact ⟨concluded.requests ▸ quiet.request, stoppedWorks quiet.jobs sorted concluded.jobs,
    (SessionTables.concludeAlone s id other origin outcome).exits ▸ quiet.exit⟩

theorem quietLeave (quiet : Quiet session run.2) (sorted : run.2.jobs.table.Sorted) (id : TaskId) :
    Quiet session (Shell.leave id c run) := by
  have left := left id (c := c) run
  exact ⟨left.requests ▸ quiet.request, stoppedWorks quiet.jobs sorted left.jobs,
    (SessionTables.leaveAlone c id run).exits ▸ quiet.exit⟩

theorem resumeForgets (tie : Shell.Tie) (id : TaskId) (data : s.sessions.get? session = none)
    (buffer : s.console.buffer? session = none) :
    (s.resume tie id).sessions.get? session = none ∧ (s.resume tie id).console.buffer? session = none := by
  obtain ⟨opened, buffers, -⟩ := Shell.rosterResume s tie id
  have shut : (s.resume tie id).isOpen session = false := by
    rw [opened]
    exact Option.isSome_eq_false_iff.mpr (Option.isNone_iff_eq_none.mpr data)
  have dark : (s.resume tie id).console.buffers.contains session = false := by
    rw [buffers]
    exact Option.isSome_eq_false_iff.mpr (Option.isNone_iff_eq_none.mpr buffer)
  exact ⟨Option.isNone_iff_eq_none.mp (Option.isSome_eq_false_iff.mp shut),
    Option.isNone_iff_eq_none.mp (Option.isSome_eq_false_iff.mp dark)⟩

theorem resumeGone (gone : Gone session s) (quiet : Quiet session (s.resume tie id))
    (scope : (s.resume tie id).scopes.live.get? session = none) : Gone session (s.resume tie id) :=
  have ⟨data, buffer⟩ := resumeForgets tie id gone.data gone.buffer
  ⟨quiet, scope, data, buffer⟩

/- Whoever has a scope has been asked to stop: the session has none that is live, and a command that is under
way has not given its own up. -/
theorem begunFired (h : Reachable s) (gone : Gone session s) (listed : (id, task) ∈ s.tasks)
    {scope : Scope} (runs : Foreground.running? id task = some ⟨id, session, scope⟩) :
    s.scopes.signals.isFired scope.signal = true := by
  obtain ⟨begun, recorded⟩ := Foreground.recordedReachable h
  obtain ⟨released, held⟩ := (Foreground.stagedRecorded recorded).held
  have mem : ⟨id, session, scope⟩ ∈ Foreground.running s := Foreground.runningMember.mpr ⟨task, listed, runs⟩
  rcases held.safe.accounted _ (held.begun _ mem) with live | left | fired
  · cases gone.scope.symm.trans live
  · exact absurd left (held.unreleased _ mem)
  · exact fired

theorem goesOnGone (h : Reachable s) (gone : Gone session s) (own : c.session = session)
    (listed : (id, task) ∈ s.tasks)
    (runs : ∀ scope, c.origin = .foreground scope → Foreground.running? id task = some ⟨id, session, scope⟩)
    (turn : s.resume tie id = Shell.leave id c run) (scopes : run.2.scopes = s.scopes)
    (works : Works c.origin.job? s.jobs run.2.jobs) (exit : session ∉ run.2.exits)
    (asks : run.2.requests.pending.get? session = none ∨ Awaits c run) : Gone session (s.resume tie id) := by
  have sorted := Crashes.sortedReachable h
  -- Scopes are as they were, so nobody who had been asked to stop can have got a line.
  have request : run.2.requests.pending.get? session = none := by
    rcases asks with empty | ⟨-, scope, place, unfired⟩
    · exact empty
    · have fired := begunFired h gone listed (runs scope place)
      rw [scopes, fired] at unfired
      cases unfired
  have quiet : Quiet session run.2 := ⟨request, stoppedWorks gone.jobs sorted works, exit⟩
  have empty : run.2.scopes.live.get? c.session = none := by
    rw [scopes, own]
    exact gone.scope
  refine resumeGone gone ?_ ?_
  · rw [turn]
    exact quietLeave quiet (works.kept sorted).sorted id
  · rw [turn, ← own]
    exact leaveStays empty id

theorem begunGone (h : Reachable s) (gone : Gone session s) (stands : s.tasks.lookup id = some task)
    (own : session? task = some session) (begun : ¬ Unbegun session task) :
    Gone session (s.resume tie id) := by
  have sound := Shell.soundReachable h
  have listed := Shell.lookedUp stands
  have tidy : Shell.TaskTidy task := sound.tidy _ listed
  have heedful : Heedful.TaskHeedful task := Heedful.heedfulReachable h _ listed
  have clean := (Shell.soundWithdraw sound id).toClean
  have exit : session ∉ (s.withdraw id).exits := gone.exit
  cases task with
  | line other | job other => exact absurd (Option.some.inj own) begun
  | watcher watch => cases own
  | program c program =>
    obtain ⟨name, -, each⟩ := heedful
    have performed := performed (c := c) clean tidy Shell.fullTurn
    have turn : s.resume tie id = Shell.leave id c (Shell.perform c Shell.fullTurn program (s.withdraw id)) := by
      unfold Shell.resume
      rw [stands]
      rfl
    refine goesOnGone h gone (Option.some.inj own) listed (fun scope place => ?_) turn
      (Shell.scopesPerform clean tidy _) performed.within.jobs ?_ ?_
    · cases own
      simp [Foreground.running?, place]
    · exact SessionTables.performs (P := fun _ exits => session ∉ exits) (each.mono fun _ => heedfulStays) _ exit
    · refine (performedAwaits performed).imp_left fun same => ?_
      rw [same]
      exact gone.request
  | waiting c wait =>
    obtain ⟨name, -, each⟩ := heedful
    have goesOn := goesOn (c := c) clean tidy tie
    have empty : (s.withdraw id).requests.pending.get? session = none := gone.request
    by_cases moves : s.canMove (.waiting c wait) = true
    · have turn : s.resume tie id = Shell.leave id c (Shell.goOn tie c wait (s.withdraw id)) := by
        unfold Shell.resume
        rw [stands]
        dsimp only
        rw [if_pos moves]
      refine goesOnGone h gone (Option.some.inj own) listed (fun scope place => ?_) turn
        (Shell.scopesGoOn clean tidy tie) goesOn.within.jobs ?_ (goesOnAwaits empty goesOn)
      · cases own
        simp [Foreground.running?, place]
      · exact SessionTables.goesOn (P := fun _ exits => session ∉ exits)
          (Actions.waitMono each fun _ => heedfulStays) tie exit
    · unfold Shell.resume
      rw [stands]
      dsimp only
      rw [if_neg moves]
      exact gone.same rfl rfl rfl rfl rfl rfl

theorem concludedGone (h : Reachable s) (gone : Gone session s) {typed : Text} {outcome : Outcome}
    (quiet : Quiet session t) (works : ∃ own, Works own s.jobs t.jobs)
    (scopes : t.scopes = (s.scopes.begin session).2.2)
    (turn : s.resume tie id =
      t.conclude id session (.foreground (s.opened id session typed).1) outcome) :
    Gone session (s.resume tie id) := by
  obtain ⟨own, works⟩ := works
  have sorted := (works.kept (Crashes.sortedReachable h)).sorted
  refine resumeGone gone ?_ ?_
  · rw [turn]
    exact quietConclude quiet sorted id session _ outcome
  · rw [turn, concludeScopes, scopes]
    exact passedEmpties (Shell.soundReachable h) session

theorem openedQuiet (h : Reachable s) (gone : Gone session s) (id : TaskId) (typed : Text) :
    Quiet session (s.opened id session typed).2 ∧
      (s.opened id session typed).2.scopes = (s.scopes.begin session).2.2 ∧
      (s.opened id session typed).2.jobs = s.jobs := by
  obtain ⟨ready, same⟩ := CalledLines.openedQuietly h id session typed
  rw [same]
  exact ⟨⟨gone.request, gone.jobs, gone.exit⟩, rfl, rfl⟩

theorem openedSound (h : Reachable s) (id : TaskId) (session : SessionId) (typed : Text) :
    Sound (s.opened id session typed).2 := by
  have sound : Sound ((s.withdraw id).remember session (Text.trim typed)) :=
    Shell.soundSession (Shell.soundWithdraw (Shell.soundReachable h) id) session _
  exact Shell.soundKept sound (Shell.keptOnScopes _ _) (Shell.cleanBegin sound.toClean session)

theorem calledGone (h : Reachable s) (gone : Gone session s) (calls : Calls s id session typed piped call)
    (remains : ¬ Quits call) {ending : Ending}
    (ends : (firstRun s id session typed piped call).1 = .ended ending) : Gone session (s.resume tie id) := by
  obtain ⟨quiet, scopes, jobs⟩ := openedQuiet h gone id typed
  have sound := openedSound h id session typed
  have tidy := Foreground.calledProgram sound calls.read ⟨none, piped⟩
  have performed := performed (c := called s id session typed call) sound.toClean tidy Shell.fullTurn
  have works := performed.within.jobs
  have still := Shell.scopesPerform (c := called s id session typed call) sound.toClean tidy Shell.fullTurn
  have exit := calledStays (c := called s id session typed call) sound.provided calls.read remains
    ⟨none, piped⟩ Shell.fullTurn quiet.exit
  rw [jobs] at works
  rw [scopes] at still
  have request : (firstRun s id session typed piped call).2.requests.pending.get? session = none := by
    rcases performedAwaits performed with same | ⟨⟨wait, waits⟩, -⟩
    · exact (congrArg (fun requests => requests.pending.get? session) same).trans quiet.request
    · cases ends.symm.trans waits
  exact concludedGone h gone ⟨request, stoppedWorks gone.jobs (Crashes.sortedReachable h) works, exit⟩
    ⟨_, works⟩ still (calls.ends tie (Prod.ext ends rfl))

theorem blankTurn (stands : s.tasks.lookup id = some (.line session typed piped))
    (blank : Text.trim typed = []) (tie : Shell.Tie) :
    s.resume tie id = (s.withdraw id).recordOutcome id .ok := by
  unfold Shell.resume Shell.startLine
  rw [stands]
  simp [Shell.canMove, blank]

theorem typedGone (h : Reachable s) (gone : Gone session s)
    (stands : s.tasks.lookup id = some (.line session typed piped)) (tie : Shell.Tie)
    (quiet : ¬ Reopens session s (s.resume tie id)) : Gone session (s.resume tie id) := by
  by_cases blank : Text.trim typed = []
  · rw [blankTurn stands blank]
    exact gone.same rfl rfl rfl rfl rfl rfl
  cases foreground : Background.command? (Text.trim typed) with
  | some line => exact absurd (.job stands foreground) quiet
  | none =>
    have plain : s.assign? session (Text.trim typed) = none :=
      Offstage.assignsNothing.mpr fun data there => by cases gone.data.symm.trans there
    have turn := Shell.startsCommand tie stands blank plain foreground
    unfold Shell.dispatch at turn
    obtain ⟨opened, scopes, jobs⟩ := openedQuiet h gone id typed
    have works : ∃ own, Works own s.jobs (s.opened id session typed).2.jobs := ⟨none, jobs ▸ .refl _⟩
    cases read : (s.opened id session typed).2.readCall session (Text.trim typed) with
    | error error =>
      rw [read] at turn
      exact concludedGone h gone opened works scopes turn
    | ok result =>
      cases result with
      | none =>
        rw [read] at turn
        exact concludedGone h gone opened works scopes turn
      | some call =>
        have calls : Calls s id session typed piped call := ⟨stands, plain, foreground, read⟩
        by_cases quits : Quits call
        · exact absurd (.exit calls quits) quiet
        · by_cases ends : ∃ ending, (firstRun s id session typed piped call).1 = .ended ending
          · obtain ⟨ending, ends⟩ := ends
            exact calledGone h gone calls quits ends
          · exact absurd (.command calls (not_exists.mp ends)) quiet

theorem jobGone (h : Reachable s) (gone : Gone session s) {job : JobId} {signal : SignalId}
    (stands : s.tasks.lookup id = some (.job session job signal line piped)) (tie : Shell.Tie)
    (quiet : ¬ Reopens session s (s.resume tie id)) : Gone session (s.resume tie id) := by
  have sound := Shell.soundWithdraw (Shell.soundReachable h) id
  have sorted := Crashes.sortedReachable h
  have before : Quiet session (s.withdraw id) := ⟨gone.request, gone.jobs, gone.exit⟩
  have turn : s.resume tie id = (s.withdraw id).dispatch id session (.job job signal) line piped := by
    unfold Shell.resume
    rw [stands]
    rfl
  unfold Shell.dispatch at turn
  have concluded {outcome : Outcome}
      (ends : s.resume tie id = (s.withdraw id).conclude id session (.job job signal) outcome) :
      Gone session (s.resume tie id) :=
    resumeGone gone (ends ▸ quietConclude before sorted id session _ outcome)
      (ends ▸ concludeStays (s := s.withdraw id) gone.scope id _ outcome)
  cases read : (s.withdraw id).readCall session line with
  | error error =>
    rw [read] at turn
    exact concluded turn
  | ok result =>
    cases result with
    | none =>
      rw [read] at turn
      exact concluded turn
    | some call =>
      rw [read] at turn
      have remains : ¬ Quits call := fun quits => quiet (.jobExit stands read quits)
      have tidy := Foreground.calledProgram sound read ⟨some job, piped⟩
      have performed := performed (c := ⟨session, .job job signal, some call.command.name⟩) sound.toClean tidy
        Shell.fullTurn
      refine goesOnGone h gone rfl (Shell.lookedUp stands) (fun _ place => by cases place) turn
        (Shell.scopesPerform sound.toClean tidy _) performed.within.jobs
        (calledStays sound.provided read remains _ _ before.exit) ?_
      exact (performedAwaits performed).imp_left fun same =>
        (congrArg (fun requests => requests.pending.get? session) same).trans before.request

theorem unendedScopes (unended : ∀ ending, run.1 ≠ .ended ending) (id : TaskId) :
    (Shell.leave id c run).scopes = run.2.scopes := by
  obtain ⟨halt, t⟩ := run
  cases halt with
  | waiting wait | yielded rest => rfl
  | ended ending => exact absurd rfl (unended ending)

theorem exitRequested (s : Shell) (session : SessionId) : session ∈ (s.requestExit session).exits := by
  unfold Shell.requestExit
  split
  · rename_i asked
    exact List.contains_iff_mem.mp asked
  · exact List.mem_cons_self

theorem quitsAsked (provided : Shell.Provided s.registry.commands)
    (read : s.readCall session line = .ok (some call)) (quits : Quits call) (origin : Origin)
    (caller : Caller) (id : TaskId) :
    let c : Invocation := ⟨session, origin, some call.command.name⟩
    session ∈ (Shell.leave id c (Shell.perform c Shell.fullTurn
      (call.command.handler call.arguments caller) s)).exits := by
  intro c
  rw [(SessionTables.leaveAlone c id _).exits, Heedful.quitsOnly provided read quits]
  exact exitRequested s session

theorem reopened (h : Reachable s) (data : s.sessions.get? session = none) (reopens : Reopens session s t) :
    ¬ Gone session t := by
  have sound := Shell.soundReachable h
  intro gone
  cases reopens with
  | @command tie id typed piped call calls unended =>
    have opened := openedSound h id session typed
    have tidy := Foreground.calledProgram opened calls.read ⟨none, piped⟩
    obtain ⟨ready, same⟩ := CalledLines.openedQuietly h id session typed
    have still : (s.resume tie id).scopes = (s.scopes.begin session).2.2 := by
      rw [calls.turn tie]
      refine (unendedScopes unended id).trans ((Shell.scopesPerform opened.toClean tidy _).trans ?_)
      rw [same]
    have empty := gone.scope
    rw [still, (Foreground.begunScopes sound session).2, (Foreground.replaced s.scopes session).2.1,
      Dict.getInsert, if_pos rfl] at empty
    cases empty
  | @job tie id typed piped line stands marked =>
    have plain : s.assign? session (Text.trim typed) = none :=
      Offstage.assignsNothing.mpr fun there found => by cases data.symm.trans found
    obtain ⟨console, outcomes, ready, started⟩ := Shell.startsJob tie stands plain marked
    have jobs := gone.jobs
    rw [started] at jobs
    exact createdRuns s.jobs session line s.wall jobs
  | @exit tie id typed piped call calls quits =>
    have asked := quitsAsked (openedSound h id session typed).provided calls.read quits
      (.foreground (s.opened id session typed).1) ⟨none, piped⟩ id
    refine gone.exit ?_
    rw [calls.turn tie]
    exact asked
  | @jobExit tie id job signal line piped call stands read quits =>
    have asked := quitsAsked (Shell.soundWithdraw sound id).provided read quits (.job job signal)
      ⟨some job, piped⟩ id
    refine gone.exit ?_
    unfold Shell.resume
    rw [stands]
    change session ∈ ((s.withdraw id).dispatch id session (.job job signal) line piped).exits
    unfold Shell.dispatch
    rw [read]
    exact asked

theorem reopensUnbegun (reopens : Reopens session s t) : ∃ e ∈ s.tasks, Unbegun session e.2 := by
  cases reopens with
  | command calls | exit calls => exact ⟨_, Shell.lookedUp calls.stands, rfl⟩
  | job stands | jobExit stands => exact ⟨_, Shell.lookedUp stands, rfl⟩

theorem remainsBegun {e : TaskId × Shell.Task} (remains : e ∈ Confinement.remains id c run.1) :
    ¬ Unbegun session e.2 := by
  unfold Confinement.remains at remains
  split at remains
  · rw [List.mem_singleton.mp remains]
    exact not_false
  · rw [List.mem_singleton.mp remains]
    exact not_false
  · cases remains

theorem turnWaited (stopped : Stopped session (s.resume tie id).jobs) :
    ∀ e ∈ (s.resume tie id).tasks, Unbegun session e.2 → e ∈ s.tasks := by
  have resumed := Shell.resumeResumed tie s id
  generalize s.resume tie id = t at resumed stopped ⊢
  intro e mem unbegun
  have taken (old : e ∈ (s.withdraw id).tasks) : e ∈ s.tasks := (List.mem_filter.mp old).1
  cases resumed with
  | absent | stuck => first | exact taken mem | exact mem
  | @watches watch stands =>
    rcases (OwnRequests.lookTasks (s.withdraw id) id watch.job).2.2 e mem with old | ⟨-, watch, watcher⟩
    · exact taken old
    · rw [watcher] at unbegun
      exact unbegun.elim
  | noted stands done tasks jobs => exact taken (tasks ▸ mem)
  | @starts t owner typed piped command stands done tasks jobs =>
    rcases List.mem_append.mp (tasks ▸ mem) with old | new
    · exact taken old
    · rw [List.mem_singleton.mp new] at unbegun
      cases (unbegun : owner = session)
      exact absurd (jobs ▸ stopped) (createdRuns s.jobs _ command s.wall)
  | @refused owner origin line piped u error begins read =>
    have concluded := confinedConclude (c := ⟨owner, origin, none⟩) u id (.failed error)
    exact taken ((concluded.tasks.trans begins.kept.tasks) ▸ mem)
  | @wordless owner origin line piped u begins read =>
    have concluded := confinedConclude (c := ⟨owner, origin, none⟩) u id .ok
    exact taken ((concluded.tasks.trans begins.kept.tasks) ▸ mem)
  | @ran c run runs =>
    rw [(left id (c := c) run).tasks, runs.kept.tasks] at mem
    exact (List.mem_append.mp mem).elim taken fun remains => absurd unbegun (remainsBegun remains)

end ConsoleShell.ClosedTurns
