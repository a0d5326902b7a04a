import ConsoleShell.Proofs.ClosedTurns
import ConsoleShell.Proofs.Isolation
import ConsoleShell.Proofs.TypedRuns

/-! Sessions that have been closed. Nothing of a session is left at its close, and what it had stored and shown
never comes back. Its tasks still have their turns, so the session stays gone exactly as long as no line that
had not begun leaves a command waiting, starts a job or asks the user to leave. -/
namespace ConsoleShell.ClosedSessions
open ClosedTurns
open Confinement
open Shell (Reachable)
open TypedRuns (External)

def named? : External → Option SessionId
  | .closeSession session | .input session _ | .execute session _ _ | .cancel session
  | .createJob session _ | .setStore session _ | .takeExit session => some session
  | .openSession | .killJob _ | .clearFinished | .watchJob _ | .setAliases _ | .resetState | .subscribe
  | .takeEvents => none

inductive Moves (session : SessionId) (s : Shell) : Shell → Prop where
  | call (call : External) (foreign : named? call ≠ some session) : Moves session s (call.run s)
  | turn (tie : Shell.Tie) (id : TaskId) : Moves session s (s.resume tie id)
  | pass (clock wall : Nat) (dice : Nat → Nat) : Moves session s (Shell.wake { s with clock, wall, dice })
  | schedule (ready aside : List TaskId) (turnCount : Nat) :
      Moves session s { s with ready, aside, turnCount }

structure Closed (session : SessionId) (s : Shell) (later : List Shell) : Prop where
  atOnce : Gone session (s.closeSession session)
  forgets : ∀ t ∈ later, t.sessions.get? session = none ∧ t.console.buffer? session = none
  stays : (∀ t ∈ later, Gone session t) ↔
    (s.closeSession session :: later).IsChain fun a b => ¬ Reopens session a b
  begun : (∀ e ∈ s.tasks, ¬ Unbegun session e.2) → ∀ t ∈ later, Gone session t

variable {s t : Shell} {session other : SessionId}

structure Spares (session : SessionId) (s t : Shell) : Prop where
  request : s.requests.pending.get? session = none → t.requests.pending.get? session = none
  jobs : Stopped session s.jobs → Stopped session t.jobs
  exit : session ∉ s.exits → session ∉ t.exits
  scope : s.scopes.live.get? session = none → t.scopes.live.get? session = none
  data : s.sessions.get? session = none → t.sessions.get? session = none
  buffer : s.console.buffer? session = none → t.console.buffer? session = none

theorem Spares.refl (session : SessionId) (s : Shell) : Spares session s s :=
  ⟨id, id, id, id, id, id⟩

theorem Spares.gone (spares : Spares session s t) (gone : Gone session s) : Gone session t where
  request := spares.request gone.request
  jobs := spares.jobs gone.jobs
  exit := spares.exit gone.exit
  scope := spares.scope gone.scope
  data := spares.data gone.data
  buffer := spares.buffer gone.buffer

theorem actsSpares (h : Reachable s) (acts : Isolation.Acts other s t) (apart : other ≠ session)
    (stopped : Stopped session s.jobs → Stopped session t.jobs) : Spares session s t := by
  obtain ⟨owners, filed⟩ := OwnRequests.filedReachable h
  have untouched := (Isolation.reach h filed acts).untouched filed.registered apart.symm
  exact {
    request := untouched.pending.trans
    jobs := stopped
    exit := mt untouched.exit.mp
    scope := untouched.scope.trans
    data := untouched.data.trans
    buffer := untouched.console.trans }

theorem lookSpares (s : Shell) (watcher : TaskId) (job : JobId) : Spares session s (s.look watcher job) := by
  unfold Shell.look
  split <;> exact ⟨id, id, id, id, id, id⟩

theorem openSpares (known : session.number < s.sessionCount) : Spares session s s.openSession.2 := by
  have fresh : session ≠ ⟨s.sessionCount⟩ := by
    rintro rfl
    exact Nat.lt_irrefl _ known
  refine { Spares.refl session s with data := ((Dict.getInsert _ _ _ _).trans (if_neg fresh)).trans, buffer := ?_ }
  change _ → (s.console.open ⟨s.sessionCount⟩).buffer? session = none
  unfold Console.open
  split
  · exact id
  · exact (apartSet s.console fresh _).trans

theorem callSpares (h : Reachable s) (known : session.number < s.sessionCount) {call : External}
    (foreign : named? call ≠ some session) : Spares session s (call.run s) := by
  have clean := (Shell.soundReachable h).toClean
  have sorted := Crashes.sortedReachable h
  have apart {other : SessionId} (named : named? call = some other) : other ≠ session :=
    fun same => foreign (same ▸ named)
  have withJobs {jobs : Jobs Echo} {ready : List TaskId} (works : Works none s.jobs jobs) :
      Spares session s { s with jobs, ready } :=
    { Spares.refl session s with jobs := fun stopped => stoppedWorks stopped sorted works }
  cases call with
  | openSession => exact openSpares known
  | closeSession other =>
    obtain ⟨ready, closed⟩ := Shell.closedQuietly clean other
    refine actsSpares h .close (apart rfl) fun stopped => ?_
    change Stopped session (s.closeSession other).jobs
    rw [closed]
    exact stoppedWorks stopped sorted (Crashes.killsWork _ _ _)
  | input other line =>
    refine actsSpares h (.input line) (apart rfl) fun stopped => ?_
    change Stopped session (s.handleInput other line).2.jobs
    rcases Shell.takenIn s other line with ⟨ready, taken⟩ | dispatched
    · rw [taken]
      exact stopped
    · rw [dispatched]
      exact stopped
  | cancel other =>
    obtain ⟨ready, cancelled⟩ := Shell.cancelledQuietly clean other
    refine actsSpares h .cancel (apart rfl) fun stopped => ?_
    change Stopped session (s.cancel other).2.jobs
    rw [cancelled]
    exact stopped
  | createJob other line =>
    refine actsSpares h (.createJob line) (apart rfl) fun stopped => ?_
    change Stopped session (s.startJob other line none).2.jobs
    rw [ShellJobs.deedsStart]
    exact stoppedCreate stopped (apart rfl) line s.wall
  | killJob job =>
    obtain ⟨ready, killed⟩ := Shell.killedQuietly clean job
    change Spares session s (s.killJob job).2
    rw [killed]
    exact withJobs (.deed (.kill job s.wall) trivial)
  | clearFinished => exact withJobs (.deed .clearFinished trivial)
  | watchJob job =>
    have looked : Spares session s.newTask.2 _ := lookSpares s.newTask.2 s.newTask.1 job
    exact ⟨looked.request, looked.jobs, looked.exit, looked.scope, looked.data, looked.buffer⟩
  | setStore other store =>
    exact { Spares.refl session s with
      data := ((Dict.getModify _ _ _ _).trans (if_neg (apart rfl).symm)).trans }
  | takeExit other =>
    exact { Spares.refl session s with exit := mt fun asked => (List.mem_filter.mp asked).1 }
  | resetState => exact { Spares.refl session s with exit := fun _ => List.not_mem_nil }
  | execute | setAliases | subscribe | takeEvents => exact ⟨id, id, id, id, id, id⟩

theorem turnGone (h : Reachable s) (gone : Gone session s) (tie : Shell.Tie) (id : TaskId)
    (quiet : ¬ Reopens session s (s.resume tie id)) : Gone session (s.resume tie id) := by
  cases stands : s.tasks.lookup id with
  | none =>
    unfold Shell.resume
    rw [stands]
    exact gone.same rfl rfl rfl rfl rfl rfl
  | some task =>
    by_cases own : session? task = some session
    · by_cases unbegun : Unbegun session task
      · cases task with
        | line other => cases own; exact typedGone h gone stands tie quiet
        | job other => cases own; exact jobGone h gone stands tie quiet
        | program | waiting | watcher => exact unbegun.elim
      · exact begunGone h gone stands own unbegun
    · have turn := resumeTurn (Shell.soundReachable h) stands tie
      have stopped := stoppedTurn h gone.jobs own turn
      cases whose : session? task with
      | some other =>
        have apart : other ≠ session := fun same => own (same ▸ whose)
        exact (actsSpares h (.turn stands whose tie) apart fun _ => stopped).gone gone
      | none =>
        generalize s.resume tie id = t at turn
        cases turn with
        | waits => exact gone.same rfl rfl rfl rfl rfl rfl
        | line mine | command mine => cases whose.symm.trans mine
        | watcher same =>
          have taken : Gone session (s.withdraw id) := gone.same rfl rfl rfl rfl rfl rfl
          exact (lookSpares _ id _).gone taken

theorem moveGone (h : Reachable s) (known : session.number < s.sessionCount) (gone : Gone session s)
    (move : Moves session s t) (quiet : ¬ Reopens session s t) : Gone session t := by
  cases move with
  | call call foreign => exact (callSpares h known foreign).gone gone
  | turn tie id => exact turnGone h gone tie id quiet
  | pass | schedule => exact gone.same rfl rfl rfl rfl rfl rfl

theorem callWaited (h : Reachable s) {call : External} (foreign : named? call ≠ some session) :
    ∀ e ∈ (call.run s).tasks, Unbegun session e.2 → e ∈ s.tasks := by
  obtain ⟨owners, filed⟩ := OwnRequests.filedReachable h
  intro e mem unbegun
  have mine : session? e.2 = some session := by
    obtain ⟨number, task⟩ := e
    cases task with
    | line | job => exact congrArg some unbegun
    | program | waiting | watcher => exact unbegun.elim
  have acted {other : SessionId} {t : Shell} (acts : Isolation.Acts other s t) (apart : other ≠ session)
      (mem : e ∈ t.tasks) : e ∈ s.tasks :=
    ((Isolation.reach h filed acts).tasks e mem).resolve_right fun theirs =>
      apart (Option.some.inj (theirs.symm.trans mine))
  have apart {other : SessionId} (named : named? call = some other) : other ≠ session :=
    fun same => foreign (same ▸ named)
  cases call with
  | closeSession other => exact acted .close (apart rfl) mem
  | input other line => exact acted (.input line) (apart rfl) mem
  | execute other line piped => exact acted (.execute line piped) (apart rfl) mem
  | cancel other => exact acted .cancel (apart rfl) mem
  | createJob other line => exact acted (.createJob line) (apart rfl) mem
  | killJob job => exact (Shell.keptKill s job).tasks ▸ mem
  | watchJob job =>
    rcases (OwnRequests.lookTasks s.newTask.2 s.newTask.1 job).2.2 e mem with old | ⟨-, watch, watcher⟩
    · exact old
    · rw [watcher] at mine
      cases mine
  | _ => exact mem

theorem moveWaited (h : Reachable s) (gone : Gone session t) (move : Moves session s t) :
    ∀ e ∈ t.tasks, Unbegun session e.2 → e ∈ s.tasks := by
  cases move with
  | call call foreign => exact callWaited h foreign
  | turn tie id => exact turnWaited gone.jobs
  | pass | schedule => exact fun _ mem _ => mem

theorem moveReachable (h : Reachable s) (move : Moves session s t) : Reachable t := by
  cases move with
  | call call => exact h.step (TypedRuns.externalStep s call)
  | turn tie id => exact h.step (.resume s tie id)
  | pass clock wall dice => exact h.step (.pass s clock wall dice)
  | schedule ready aside turnCount => exact h.step (.schedule s ready aside turnCount)

theorem moveCounted (h : Reachable s) (move : Moves session s t) : s.sessionCount ≤ t.sessionCount := by
  have clean := (Shell.soundReachable h).toClean
  cases move with
  | turn tie id => exact Nat.le_of_eq (Shell.rosterResume s tie id).counted.symm
  | pass | schedule => exact Nat.le_refl _
  | call call =>
    cases call with
    | openSession => exact Nat.le_succ _
    | closeSession other =>
      obtain ⟨ready, closed⟩ := Shell.closedQuietly clean other
      exact Nat.le_of_eq (congrArg Shell.sessionCount closed).symm
    | input other line =>
      rcases Shell.takenIn s other line with ⟨ready, taken⟩ | dispatched
      · exact Nat.le_of_eq (congrArg Shell.sessionCount taken).symm
      · exact Nat.le_of_eq (congrArg Shell.sessionCount dispatched).symm
    | cancel other => exact Nat.le_of_eq (Shell.keptOnScopes s _).counted.symm
    | createJob other line => exact Nat.le_of_eq (Shell.rosterStartJob s other line none).counted.symm
    | killJob job => exact Nat.le_of_eq (Shell.keptKill s job).counted.symm
    | watchJob job => exact Nat.le_of_eq (Shell.rosterLook s.newTask.2 s.newTask.1 job).counted.symm
    | _ => exact Nat.le_refl _

theorem moveForgets (h : Reachable s) (known : session.number < s.sessionCount) (move : Moves session s t)
    (data : s.sessions.get? session = none) (buffer : s.console.buffer? session = none) :
    t.sessions.get? session = none ∧ t.console.buffer? session = none := by
  cases move with
  | turn tie id => exact resumeForgets tie id data buffer
  | pass | schedule => exact ⟨data, buffer⟩
  | call call foreign =>
    have spares := callSpares h known foreign
    exact ⟨spares.data data, spares.buffer buffer⟩

theorem closeGone (h : Reachable s) (session : SessionId) : Gone session (s.closeSession session) := by
  have sound := Shell.soundReachable h
  have kills := SessionKills.closeKills h session
  obtain ⟨ready, closed⟩ := Shell.closedQuietly sound.toClean session
  have stopped : Stopped session (s.closeSession session).jobs := by
    intro id after there own
    rw [kills.jobs] at there
    obtain ⟨job, -, rfl⟩ := Option.map_eq_some_iff.mp there
    split
    · exact SessionKills.afterKillEnds s.wall job
    · rename_i foreign
      rw [if_neg foreign] at own
      exact absurd own foreign
  have scope : (s.scopes.discard session).2.live.get? session = none := by
    rcases Foreground.discarded sound.scopes session with ⟨empty, same⟩ | ⟨_, _, _, _, same⟩
    · rw [same, empty]
    · rw [same]
      exact (Dict.getErase _ _ _).trans (if_pos rfl)
  rw [closed] at stopped ⊢
  exact {
    request := (RequestTurns.cancelPending s.requests session session).trans (if_pos rfl)
    jobs := stopped
    exit := by simp
    scope := scope
    data := (Dict.getErase _ _ _).trans (if_pos rfl)
    buffer := (Dict.getErase _ _ _).trans (if_pos rfl) }

theorem closeTasks (h : Reachable s) (session : SessionId) : (s.closeSession session).tasks = s.tasks ∧
    (s.closeSession session).sessionCount = s.sessionCount := by
  obtain ⟨ready, closed⟩ := Shell.closedQuietly (Shell.soundReachable h).toClean session
  rw [closed]
  exact ⟨rfl, rfl⟩

/- Numbers of sessions are given out once, so nobody gets the number of a session again that was opened. -/
structure Knows (session : SessionId) (s : Shell) : Prop where
  reachable : Reachable s
  counted : session.number < s.sessionCount

theorem Knows.move (knows : Knows session s) (move : Moves session s t) : Knows session t :=
  ⟨moveReachable knows.reachable move, Nat.lt_of_lt_of_le knows.counted (moveCounted knows.reachable move)⟩

theorem runForgets {later : List Shell} (knows : Knows session s) (data : s.sessions.get? session = none)
    (buffer : s.console.buffer? session = none) (run : (s :: later).IsChain (Moves session)) :
    ∀ t ∈ later, t.sessions.get? session = none ∧ t.console.buffer? session = none := by
  induction later generalizing s with
  | nil => exact fun _ mem => nomatch mem
  | cons next rest ih =>
    obtain ⟨move, run⟩ := List.isChain_cons_cons.mp run
    have forgets := moveForgets knows.reachable knows.counted move data buffer
    exact List.forall_mem_cons.mpr ⟨forgets, ih (knows.move move) forgets.1 forgets.2 run⟩

theorem runStays {later : List Shell} (knows : Knows session s) (gone : Gone session s)
    (run : (s :: later).IsChain (Moves session)) :
    (∀ t ∈ later, Gone session t) ↔ (s :: later).IsChain fun a b => ¬ Reopens session a b := by
  induction later generalizing s with
  | nil => simp
  | cons next rest ih =>
    obtain ⟨move, run⟩ := List.isChain_cons_cons.mp run
    rw [List.forall_mem_cons, List.isChain_cons_cons]
    constructor
    · rintro ⟨still, others⟩
      exact ⟨fun reopens => reopened knows.reachable gone.data reopens still,
        (ih (knows.move move) still run).mp others⟩
    -- A session that is gone before a step is gone behind it unless the step reopens it.
    · rintro ⟨quiet, others⟩
      have still := moveGone knows.reachable knows.counted gone move quiet
      exact ⟨still, (ih (knows.move move) still run).mpr others⟩

theorem runBegun {later : List Shell} (knows : Knows session s) (gone : Gone session s)
    (begun : ∀ e ∈ s.tasks, ¬ Unbegun session e.2) (run : (s :: later).IsChain (Moves session)) :
    ∀ t ∈ later, Gone session t := by
  induction later generalizing s with
  | nil => exact fun _ mem => nomatch mem
  | cons next rest ih =>
    obtain ⟨move, run⟩ := List.isChain_cons_cons.mp run
    have still : Gone session next := moveGone knows.reachable knows.counted gone move fun reopens =>
      have ⟨e, mem, unbegun⟩ := reopensUnbegun reopens
      begun e mem unbegun
    refine List.forall_mem_cons.mpr ⟨still, ih (knows.move move) still (fun e mem unbegun => ?_) run⟩
    exact begun e (moveWaited knows.reachable still move e mem unbegun) unbegun

theorem closedUnlessReopened {later : List Shell} (h : Reachable s) (known : session.number < s.sessionCount)
    (run : (s.closeSession session :: later).IsChain (Moves session)) : Closed session s later := by
  have gone := closeGone h session
  obtain ⟨tasks, count⟩ := closeTasks h session
  have knows : Knows session (s.closeSession session) :=
    ⟨h.step (.closeSession s session), count.symm ▸ known⟩
  exact {
    atOnce := gone
    forgets := runForgets knows gone.data gone.buffer run
    stays := runStays knows gone run
    begun := fun begun => runBegun knows gone (tasks.symm ▸ begun) run }

def typing : Shell := (CalledLines.fresh.handleInput ⟨0⟩ "exit").2

def returned : Shell := (typing.closeSession ⟨0⟩).resume .event ⟨0⟩

theorem typingReachable : Reachable typing := CalledLines.freshReachable.step (.input _ ⟨0⟩ "exit")

theorem sleepingReachable : Reachable Foreground.sleeping :=
  (CalledLines.freshReachable.step (.execute _ ⟨0⟩ "sleep 10" none)).step (.resume _ .event ⟨0⟩)

theorem closedUnlessReopenedTyping :
    let woken := (Foreground.sleeping.closeSession ⟨0⟩).resume .event ⟨0⟩
    Closed ⟨0⟩ typing [returned] ∧ returned.exits = [⟨0⟩] ∧
      (¬ [typing.closeSession ⟨0⟩, returned].IsChain fun a b => ¬ Reopens ⟨0⟩ a b) ∧
      Closed ⟨0⟩ Foreground.sleeping [woken] ∧ Gone ⟨0⟩ woken := by
  intro woken
  have turned (s : Shell) : [s.closeSession ⟨0⟩, (s.closeSession ⟨0⟩).resume .event ⟨0⟩].IsChain (Moves ⟨0⟩) :=
    .cons_cons (.turn .event ⟨0⟩) (.singleton _)
  have reopened : Closed ⟨0⟩ typing [returned] := closedUnlessReopened typingReachable (by decide +kernel) (turned _)
  have ended : Closed ⟨0⟩ Foreground.sleeping [woken] :=
    closedUnlessReopened sleepingReachable (by decide +kernel) (turned _)
  have exits : returned.exits = [⟨0⟩] := by decide +kernel
  refine ⟨reopened, exits, fun quiet => ?_, ended, ?_⟩
  · have gone := reopened.stays.mpr quiet returned List.mem_cons_self
    exact gone.exit (exits ▸ List.mem_cons_self)
  · refine ended.begun (fun e mem => ?_) woken List.mem_cons_self
    have waits : ∀ e ∈ Foreground.sleeping.tasks, TypedRuns.isUnbegun e.2 = false := by decide +kernel
    have begun := waits e mem
    obtain ⟨number, task⟩ := e
    cases task with
    | line | job => cases begun
    | program | waiting | watcher => exact id

theorem typingReopens : Reachable typing ∧ Moves ⟨0⟩ (typing.closeSession ⟨0⟩) returned ∧
    ¬ Gone ⟨0⟩ returned ∧ returned.exits = [⟨0⟩] := by
  have exits : returned.exits = [⟨0⟩] := by decide +kernel
  exact ⟨typingReachable, .turn .event ⟨0⟩, fun gone => gone.exit (exits ▸ List.mem_cons_self), exits⟩

end ConsoleShell.ClosedSessions
