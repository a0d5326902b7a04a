import ConsoleShell.Proofs.HeldScopes
import ConsoleShell.Proofs.ScopeFrame

/-! What happens to foreground commands that are under way. A command is taken up in its own turn, and then
waits on or gives up its scope; everything else leaves all of them where they are. -/
namespace ConsoleShell.Foreground
open Shell (Kept InTurn Sound Step)

def running? (id : TaskId) : Shell.Task → Option Running
  | .program c _ | .waiting c _ =>
    match c.origin with
    | .foreground scope => some ⟨id, c.session, scope⟩
    | .job _ _ => none
  | _ => none

def running (s : Shell) : List Running := s.tasks.filterMap fun e => running? e.1 e.2

structure Unique (s : Shell) : Prop where
  apart : (s.tasks.map Prod.fst).Nodup
  numbered : ∀ entry ∈ s.tasks, entry.1.number < s.taskCount

/- What leaves foreground commands and scopes as they are. -/
structure Beside (s t : Shell) : Prop where
  scopes : t.scopes = s.scopes
  running : running t = running s
  unique : Unique s → Unique t

theorem Beside.refl (s : Shell) : Beside s s := ⟨rfl, rfl, id⟩

theorem Beside.trans {s t u : Shell} (first : Beside s t) (second : Beside t u) : Beside s u :=
  ⟨second.scopes.trans first.scopes, second.running.trans first.running,
    fun unique => second.unique (first.unique unique)⟩

variable {s t : Shell} {id : TaskId} {task : Shell.Task}

theorem runningSame (tasks : t.tasks = s.tasks) : running t = running s := by
  unfold running
  rw [tasks]

theorem uniqueSame (tasks : t.tasks = s.tasks) (count : t.taskCount = s.taskCount)
    (unique : Unique s) : Unique t :=
  ⟨tasks.symm ▸ unique.apart, tasks.symm ▸ count.symm ▸ unique.numbered⟩

theorem besideKept (kept : Kept s t) (scopes : t.scopes = s.scopes) : Beside s t :=
  ⟨scopes, runningSame kept.tasks, uniqueSame kept.tasks kept.taskCount⟩

theorem runningTask {r : Running} (made : running? id task = some r) : r.task = id := by
  unfold running? at made
  split at made
  · split at made <;> cases made
    rfl
  · split at made <;> cases made
    rfl
  · cases made

theorem runningMember {r : Running} :
    r ∈ running s ↔ ∃ task, (r.task, task) ∈ s.tasks ∧ running? r.task task = some r := by
  unfold running
  rw [List.mem_filterMap]
  constructor
  · rintro ⟨⟨id, task⟩, listed, made⟩
    have own := runningTask made
    exact ⟨task, own ▸ listed, own ▸ made⟩
  · rintro ⟨task, listed, made⟩
    exact ⟨_, listed, made⟩

theorem oneTask (unique : Unique s) {first second : Shell.Task} (left : (id, first) ∈ s.tasks)
    (right : (id, second) ∈ s.tasks) : first = second := by
  have apart := unique.apart
  generalize s.tasks = tasks at left right apart
  induction tasks with
  | nil => contradiction
  | cons entry rest ih =>
    obtain ⟨absent, others⟩ := List.nodup_cons.mp apart
    rcases List.mem_cons.mp left with rfl | leftLater
    · rcases List.mem_cons.mp right with same | rightLater
      · cases same
        rfl
      · exact absurd (List.mem_map.mpr ⟨_, rightLater, rfl⟩) absent
    · rcases List.mem_cons.mp right with rfl | rightLater
      · exact absurd (List.mem_map.mpr ⟨_, leftLater, rfl⟩) absent
      · exact ih leftLater rightLater others

theorem oneRunning (unique : Unique s) {a b : Running} (left : a ∈ running s) (right : b ∈ running s)
    (same : a.task = b.task) : a = b := by
  obtain ⟨first, listed, made⟩ := runningMember.mp left
  obtain ⟨second, stands, given⟩ := runningMember.mp right
  rw [same] at listed made
  rw [oneTask unique listed stands] at made
  exact Option.some.inj (made.symm.trans given)

theorem uniqueSuspend (unique : Unique s) (turn : InTurn s id) : Unique (s.suspend id task) where
  apart := by
    unfold Shell.suspend
    rw [List.map_append, List.nodup_append]
    refine ⟨unique.apart, List.pairwise_singleton _ _, ?_⟩
    rintro a listed b new rfl
    obtain ⟨entry, mem, same⟩ := List.mem_map.mp listed
    exact turn.taken entry mem (same.trans (List.mem_singleton.mp new))
  numbered := eachAdded unique.numbered turn.known

theorem runningSuspend (s : Shell) (id : TaskId) (task : Shell.Task) :
    running (s.suspend id task) = running s ++ (running? id task).toList := by
  unfold running Shell.suspend
  rw [List.filterMap_append]
  cases made : running? id task <;> simp [made]

theorem besideSuspend (turn : InTurn s id) (idle : running? id task = none) :
    Beside s (s.suspend id task) where
  scopes := rfl
  running := by simp [runningSuspend, idle]
  unique unique := uniqueSuspend unique turn

theorem uniqueAside (unique : Unique s) (turn : InTurn s id) : Unique (s.setAside id task) := by
  have stands : Unique (s.suspend id task) := uniqueSuspend unique turn
  exact ⟨stands.apart, stands.numbered⟩

theorem uniqueWithdraw (unique : Unique s) (id : TaskId) : Unique (s.withdraw id) where
  apart := unique.apart.sublist (List.filter_sublist.map Prod.fst)
  numbered entry mem := unique.numbered entry (List.mem_filter.mp mem).1

theorem runningWithdraw {r : Running} :
    r ∈ running (s.withdraw id) ↔ r ∈ running s ∧ r.task ≠ id := by
  simp only [runningMember, Shell.withdraw, List.mem_filter, Bool.not_eq_true', decide_eq_false_iff_not]
  constructor
  · rintro ⟨task, ⟨listed, other⟩, made⟩
    exact ⟨⟨task, listed, made⟩, other⟩
  · rintro ⟨⟨task, listed, made⟩, other⟩
    exact ⟨task, ⟨listed, other⟩, made⟩

theorem besideWithdraw (apart : ∀ r ∈ running s, r.task ≠ id) : Beside s (s.withdraw id) where
  scopes := rfl
  running := by
    refine filterMapKept fun entry listed own => ?_
    cases made : running? entry.1 entry.2 with
    | none => rfl
    | some r =>
      have same := runningTask made
      refine absurd ?_ (apart r (runningMember.mpr ⟨entry.2, same ▸ listed, same ▸ made⟩))
      simpa [same] using own
  unique unique := uniqueWithdraw unique id

theorem besideSpawn (idle : ∀ id, running? id task = none) : Beside s (s.spawn task).2 where
  scopes := rfl
  running := by
    change running (s.newTask.2.suspend s.newTask.1 task) = _
    rw [runningSuspend, idle]
    exact List.append_nil _
  unique unique := by
    have numbered : ∀ entry ∈ s.tasks, entry.1.number < s.taskCount + 1 := fun entry listed =>
      Nat.lt_succ_of_lt (unique.numbered entry listed)
    refine ⟨?_, eachAdded numbered (Nat.lt_succ_self _)⟩
    change ((s.tasks ++ [(s.newTask.1, task)]).map Prod.fst).Nodup
    rw [List.map_append, List.nodup_append]
    refine ⟨unique.apart, List.pairwise_singleton _ _, ?_⟩
    rintro a listed b new rfl
    obtain ⟨entry, mem, same⟩ := List.mem_map.mp listed
    have fresh : a = s.newTask.1 := List.mem_singleton.mp new
    have less := unique.numbered entry mem
    rw [same, fresh] at less
    exact Nat.lt_irrefl _ less

theorem besidePrint (s : Shell) (session : SessionId) (job : Option JobId) (kind : OutputKind)
    (text : Text) : Beside s (s.printAt session job kind text).2 :=
  besideKept (Shell.keptPrintAt s session job kind text) (Shell.scopesPrintAt s session job kind text)

theorem besideRecord (s : Shell) (id : TaskId) (outcome : Outcome) :
    Beside s (s.recordOutcome id outcome) :=
  ⟨rfl, rfl, fun unique => ⟨unique.apart, unique.numbered⟩⟩

inductive Halted (s : Shell) (scopes : Scopes Echo) (r : Running) (t : Shell) : Prop where
  | stays (same : t.scopes = scopes) (stands : running t = running s ++ [r])
      (unique : Unique s → Unique t)
  | ends (gone : t.scopes = (scopes.finish r.session r.scope.id).2) (left : running t = running s)
      (unique : Unique s → Unique t)

theorem haltedFrom {u : Shell} {scopes : Scopes Echo} {r : Running} (stood : running t = running s)
    (first : Unique s → Unique t) (halted : Halted t scopes r u) : Halted s scopes r u := by
  cases halted with
  | stays same stands unique => exact .stays same (stood ▸ stands) fun before => unique (first before)
  | ends gone left unique => exact .ends gone (left.trans stood) fun before => unique (first before)

theorem concludeHalted (s : Shell) (id : TaskId) (session : SessionId) (scope : Scope)
    (outcome : Outcome) :
    Halted s s.scopes ⟨id, session, scope⟩ (s.conclude id session (.foreground scope) outcome) := by
  unfold Shell.conclude
  dsimp only
  split
  · rename_i error
    have told := besidePrint s session none .error (Markup.escape error.message)
    rw [← told.scopes]
    exact haltedFrom told.running told.unique (.ends rfl rfl (uniqueSame rfl rfl))
  · exact .ends rfl rfl (uniqueSame rfl rfl)

theorem concludeBeside (s : Shell) (id : TaskId) (session : SessionId) (job : JobId)
    (signal : SignalId) (outcome : Outcome) :
    Beside s (s.conclude id session (.job job signal) outcome) := by
  unfold Shell.conclude
  dsimp only
  split
  · exact besideKept (Shell.keptSettle _ _ _) rfl
  · exact .refl s

section Halts

variable {c : Invocation} {run : Halt × Shell} (before : Beside s run.2) (turn : InTurn run.2 id)

include before turn

theorem leaveHalted {scope : Scope} (origin : c.origin = .foreground scope) :
    Halted s s.scopes ⟨id, c.session, scope⟩ (Shell.leave id c run) := by
  obtain ⟨halt, t⟩ := run
  refine haltedFrom before.running before.unique ?_
  rw [← before.scopes]
  unfold Shell.leave
  cases halt with
  | waiting wait =>
    refine .stays rfl ?_ fun unique => uniqueSuspend unique turn
    rw [runningSuspend]
    simp [running?, origin]
  | yielded rest =>
    refine .stays rfl ?_ fun unique => uniqueAside unique turn
    change running (t.suspend id (.program c rest)) = _
    rw [runningSuspend]
    simp [running?, origin]
  | ended ending =>
    dsimp only
    rw [origin]
    split
    · exact concludeHalted t id c.session scope _
    · contradiction
    · rename_i same
      cases same
      exact .ends rfl rfl (uniqueSame rfl rfl)

theorem leaveBeside {job : JobId} {signal : SignalId} (origin : c.origin = .job job signal) :
    Beside s (Shell.leave id c run) := by
  obtain ⟨halt, t⟩ := run
  refine before.trans ?_
  unfold Shell.leave
  cases halt with
  | waiting wait => exact besideSuspend turn (by simp [running?, origin])
  | yielded rest =>
    refine ⟨rfl, ?_, fun unique => uniqueAside unique turn⟩
    change running (t.suspend id (.program c rest)) = _
    rw [runningSuspend]
    simp [running?, origin]
  | ended ending =>
    dsimp only
    rw [origin]
    split
    · exact concludeBeside t id c.session job signal _
    · split
      · exact besideKept (Shell.keptSettle _ _ _) rfl
      · exact .refl t
    · contradiction

end Halts

theorem performBeside (h : Shell.Clean s) {p : Program} (tidy : Printing.Tidy p) (c : Invocation)
    (left : Nat) : Beside s (Shell.perform c left p s).2 :=
  besideKept (Shell.keptPerform s c left p) (Shell.scopesPerform h tidy left)

theorem calledProgram (h : Sound s) {session : SessionId} {line : Text} {call : Call}
    (read : s.readCall session line = .ok (some call)) (caller : Caller) :
    Printing.Tidy (call.command.handler call.arguments caller) := by
  obtain ⟨name, words, found, parsed⟩ := Shell.calledKnown read
  obtain ⟨d, listed, built⟩ := Dict.everyFound h.provided.only found
  exact Printing.calledTidy listed built parsed caller

theorem dispatchHalted (h : Sound s) (turn : InTurn s id) (session : SessionId) (scope : Scope)
    (line : Text) (piped : Option (List Text)) :
    Halted s s.scopes ⟨id, session, scope⟩ (s.dispatch id session (.foreground scope) line piped) := by
  unfold Shell.dispatch
  split
  · exact concludeHalted s id session scope _
  · exact concludeHalted s id session scope _
  · rename_i call read
    dsimp only
    exact leaveHalted (c := ⟨session, .foreground scope, some call.command.name⟩)
      (performBeside h.toClean (calledProgram h read _) _ _) (turn.kept (Shell.keptPerform _ _ _ _)) rfl

theorem dispatchBeside (h : Sound s) (turn : InTurn s id) (session : SessionId) (job : JobId)
    (signal : SignalId) (line : Text) (piped : Option (List Text)) :
    Beside s (s.dispatch id session (.job job signal) line piped) := by
  unfold Shell.dispatch
  split
  · exact concludeBeside s id session job signal _
  · exact concludeBeside s id session job signal _
  · rename_i call read
    exact leaveBeside (performBeside h.toClean (calledProgram h read _) _ _)
      (turn.kept (Shell.keptPerform _ _ _ _)) rfl

theorem startJobBeside (s : Shell) (session : SessionId) (line : Text)
    (piped : Option (List Text)) : Beside s (s.startJob session line piped).2 := by
  have created : Beside s { s with jobs := (s.jobs.create session line s.wall).2 } :=
    besideKept (Shell.keptJobs s _) rfl
  unfold Shell.startJob
  dsimp only
  split
  · exact created
  · exact created.trans (besideSpawn fun _ => rfl)

theorem lookBeside (turn : InTurn s id) (job : JobId) : Beside s (s.look id job) := by
  unfold Shell.look
  split
  · exact besideSuspend turn rfl
  · exact ⟨rfl, rfl, uniqueSame rfl rfl⟩

theorem startLineTurn (h : Sound s) (turn : InTurn s id) (session : SessionId) (typed : Text)
    (piped : Option (List Text)) :
    Beside s (s.startLine id session typed piped) ∨
      Halted s (s.scopes.begin session).2.2 ⟨id, session, (s.scopes.begin session).1⟩
        (s.startLine id session typed piped) := by
  unfold Shell.startLine
  dsimp only
  split
  · exact .inl (besideRecord s id .ok)
  have first : Beside s (s.remember session (Text.trim typed)) :=
    besideKept (Shell.keptSession s _ _) rfl
  have sound : Sound (s.remember session (Text.trim typed)) := Shell.soundSession h session _
  have still : InTurn (s.remember session (Text.trim typed)) id := turn.kept (Shell.keptSession s _ _)
  rw [← first.scopes]
  generalize s.remember session (Text.trim typed) = t at first sound still
  split
  · rename_i assignment assigned made
    obtain ⟨data, -, made⟩ := Option.bind_eq_some_iff.mp made
    obtain ⟨⟨_, store⟩, -, same⟩ := Option.bind_eq_some_iff.mp made
    cases same
    have stored : Beside t (t.onStore session fun _ => store) :=
      besideKept (Shell.keptSession t session _) rfl
    exact .inl (((first.trans stored).trans (besidePrint _ _ _ _ _)).trans (besideRecord _ id .ok))
  · split
    · rename_i command _
      have started := startJobBeside t session command piped
      generalize t.startJob session command piped = next at started
      exact .inl (((first.trans started).trans (besidePrint _ _ _ _ _)).trans (besideRecord _ id .ok))
    · have kept := Shell.keptOnScopes t (t.scopes.begin session)
      have opened := Shell.soundKept sound kept (Shell.cleanBegin sound.toClean session)
      have halted := dispatchHalted opened (still.kept kept) session (t.beginScope session).1
        (Text.trim typed) piped
      rw [Shell.scopesChanged] at halted
      exact .inr (haltedFrom ((runningSame kept.tasks).trans first.running)
        (fun unique => uniqueSame kept.tasks kept.taskCount (first.unique unique)) halted)

inductive Turned (s : Shell) (id : TaskId) (t : Shell) : Prop where
  | beside (same : Beside s t)
  | command (r : Running) (there : r ∈ running s) (own : r.task = id)
      (halted : Halted (s.withdraw id) s.scopes r t)
  | line (session : SessionId) (text : Text) (piped : Option (List Text))
      (listed : s.tasks.lookup id = some (.line session text piped))
      (apart : ∀ r ∈ running s, r.task ≠ id)
      (halted : Halted (s.withdraw id) (s.scopes.begin session).2.2
        ⟨id, session, (s.scopes.begin session).1⟩ t)

theorem apartTask (unique : Unique s) (listed : (id, task) ∈ s.tasks) (idle : running? id task = none) :
    ∀ r ∈ running s, r.task ≠ id := by
  intro r mem own
  obtain ⟨other, stands, made⟩ := runningMember.mp mem
  rw [own] at stands made
  rw [oneTask unique stands listed, idle] at made
  contradiction

theorem leaveTurned (unique : Unique s) (listed : (id, task) ∈ s.tasks) {c : Invocation}
    (same : running? id task = running? id (.program c .finish)) {run : Halt × Shell}
    (before : Beside (s.withdraw id) run.2) (turn : InTurn run.2 id) :
    Turned s id (Shell.leave id c run) := by
  cases origin : c.origin with
  | foreground scope =>
    have made : running? id task = some ⟨id, c.session, scope⟩ := by
      rw [same]
      simp [running?, origin]
    exact .command ⟨id, c.session, scope⟩ (runningMember.mpr ⟨task, listed, made⟩) rfl
      (leaveHalted before turn origin)
  | job job signal =>
    have idle : running? id task = none := by
      rw [same]
      simp [running?, origin]
    exact .beside ((besideWithdraw (apartTask unique listed idle)).trans
      (leaveBeside before turn origin))

theorem resumeTurned (h : Sound s) (unique : Unique s) (tie : Shell.Tie) (id : TaskId) :
    Turned s id (s.resume tie id) := by
  unfold Shell.resume
  split
  · rename_i absent
    refine .beside (besideWithdraw fun r mem own => ?_)
    obtain ⟨task, listed, -⟩ := runningMember.mp mem
    have other := List.lookup_eq_none_iff.mp absent _ listed
    simp [own] at other
  rename_i task found
  have listed := Shell.lookedUp found
  have turn := Shell.turnWithdrawn h listed
  have rest := Shell.soundWithdraw h id
  have tidy : Shell.TaskTidy task := h.tidy _ listed
  split
  · dsimp only
    cases task with
    | line session text piped =>
      have apart := apartTask unique listed rfl
      rcases startLineTurn rest turn session text piped with same | halted
      · exact .beside ((besideWithdraw apart).trans same)
      · exact .line session text piped found apart halted
    | job session job signal text piped =>
      exact .beside ((besideWithdraw (apartTask unique listed rfl)).trans
        (dispatchBeside rest turn session job signal text piped))
    | program c program =>
      exact leaveTurned unique listed rfl (performBeside rest.toClean tidy c _)
        (turn.kept (Shell.keptPerform _ _ _ _))
    | waiting c wait =>
      exact leaveTurned unique listed rfl
        (besideKept (Shell.keptGoOn _ c tie wait) (Shell.scopesGoOn rest.toClean tidy tie))
        (turn.kept (Shell.keptGoOn _ _ _ _))
    | watcher watch =>
      exact .beside ((besideWithdraw (apartTask unique listed rfl)).trans (lookBeside turn _))
  · exact .beside ⟨rfl, rfl, fun unique => ⟨unique.apart, unique.numbered⟩⟩

inductive Moved (s t : Shell) : Prop where
  | beside (same : Beside s t)
  | cancelled (session : SessionId) (scopes : t.scopes = (s.scopes.cancel session).2.2)
      (stands : running t = running s) (unique : Unique s → Unique t)
  | closed (session : SessionId) (scopes : t.scopes = (s.scopes.discard session).2)
      (stands : running t = running s) (unique : Unique s → Unique t)
  | turn (tie : Shell.Tie) (id : TaskId) (same : t = s.resume tie id)

theorem besideKillAll (s : Shell) (jobs : List JobId) :
    Beside s (jobs.foldl (fun s id => (s.killJob id).2) s) := by
  induction jobs generalizing s with
  | nil => exact .refl s
  | cons id rest ih =>
    exact (besideKept (Shell.keptKill s id) (Shell.scopesKill s id)).trans (ih (s.killJob id).2)

theorem closeMoved (s : Shell) (session : SessionId) : Moved s (s.closeSession session) := by
  have kept := Shell.keptOnScopes s ((), s.scopes.discard session)
  have scopes := Shell.scopesChanged s ((), s.scopes.discard session)
  unfold Shell.closeSession
  dsimp only
  generalize (s.onScopes ((), s.scopes.discard session)).2 = stopped at kept scopes
  have woken : Beside stopped
      (Shell.wake { stopped with requests := (stopped.requests.cancel session).2 }) :=
    besideKept ((Shell.keptRequests stopped _).trans (Shell.keptWake _)) rfl
  generalize Shell.wake { stopped with requests := (stopped.requests.cancel session).2 } = next
    at woken
  have killed := woken.trans (besideKillAll next (next.jobs.runningIn session))
  refine .closed session (killed.scopes.trans scopes) (killed.running.trans (runningSame kept.tasks)) ?_
  intro unique
  have last := killed.unique (uniqueSame kept.tasks kept.taskCount unique)
  exact ⟨last.apart, last.numbered⟩

theorem stepMoved (h : Sound s) (move : Step s t) : Moved s t := by
  have same {u : Shell} (scopes : u.scopes = s.scopes) (tasks : u.tasks = s.tasks)
      (count : u.taskCount = s.taskCount) : Moved s u :=
    .beside ⟨scopes, runningSame tasks, uniqueSame tasks count⟩
  cases move with
  | closeSession session => exact closeMoved s session
  | input session line =>
    have delivered : Beside s { s with requests := (s.requests.deliver session line).2 } :=
      besideKept (Shell.keptRequests s _) rfl
    unfold Shell.handleInput
    dsimp only
    split
    · exact .beside (delivered.trans (besideKept (Shell.keptWake _) rfl))
    · exact .beside (delivered.trans (besideSpawn fun _ => rfl))
  | execute session line piped => exact .beside (besideSpawn fun _ => rfl)
  | cancel session =>
    have kept := Shell.keptOnScopes s (s.scopes.cancel session)
    exact .cancelled session (Shell.scopesChanged s _) (runningSame kept.tasks)
      (uniqueSame kept.tasks kept.taskCount)
  | createJob session line => exact .beside (startJobBeside s session line none)
  | killJob id => exact .beside (besideKept (Shell.keptKill s id) (Shell.scopesKill s id))
  | watchJob id =>
    have new : Beside s s.newTask.2 := by
      refine ⟨rfl, rfl, fun unique => ⟨unique.apart, fun entry listed => ?_⟩⟩
      exact Nat.lt_succ_of_lt (unique.numbered entry listed)
    exact .beside (new.trans (lookBeside (Shell.turnNew h) id))
  | resume tie id => exact .turn tie id rfl
  | _ => exact same rfl rfl rfl

end ConsoleShell.Foreground
