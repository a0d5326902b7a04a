import ConsoleShell.Proofs.AlikeTurns
import ConsoleShell.Proofs.SessionKills

/-! Sessions side by side. What users do in one session, and what the tasks of that session do whenever they
go on, leaves to every other session all that it has to itself: its variables and history, its console,
the scope of its foreground command, the line that a command waits for, and its wish to leave. What
sessions share is aliases and commands, god mode and the jobs, and nothing else. -/
namespace ConsoleShell.Isolation
open AlikeTurns Confinement OwnRequests RequestTurns ScopeTokens SessionKills
open Shell (Reachable Sound)

inductive Acts (session : SessionId) (s : Shell) : Shell → Prop where
  | input (line : Text) : Acts session s (s.handleInput session line).2
  | execute (line : Text) (piped : Option (List Text)) : Acts session s (s.execute session line piped).2
  | createJob (line : Text) : Acts session s (s.createJob session line).2
  | cancel : Acts session s (s.cancel session).2
  | close : Acts session s (s.closeSession session)
  | turn {id task} (found : s.tasks.lookup id = some task) (own : session? task = some session)
      (tie : Shell.Tie) : Acts session s (s.resume tie id)

structure Untouched (other : SessionId) (s t : Shell) : Prop where
  data : t.sessions.get? other = s.sessions.get? other
  console : t.console.buffer? other = s.console.buffer? other
  scope : t.scopes.live.get? other = s.scopes.live.get? other
  token : ∀ scope, s.scopes.live.get? other = some scope →
    t.scopes.signals.get? scope.signal = s.scopes.signals.get? scope.signal
  pending : t.requests.pending.get? other = s.requests.pending.get? other
  request : ∀ request, s.requests.pending.get? other = some request →
    t.requests.state request = s.requests.state request
  exit : other ∈ t.exits ↔ other ∈ s.exits

structure SharedOnly (other : SessionId) (s t : Shell) : Prop where
  view : ∀ c scope, c.session = other → c.origin = .foreground scope →
    s.scopes.live.get? other = some scope → t.view c = { s.view c with
      aliases := t.registry.aliases
      commands := (t.registry.list true).map Command.outline
      jobs := t.jobs.list false
      godMode := t.godMode }
  call : ∀ line, t.readCall other line = Shell.readCall { s with registry := t.registry } other line

structure Depends (session : SessionId) (a b : Shell) : Prop where
  input : ∀ line, ((b.handleInput session line).1 = .consumed ↔ (a.handleInput session line).1 = .consumed) ∧
    Alike session (a.handleInput session line).2 (b.handleInput session line).2
  execute : ∀ line piped, Alike session (a.execute session line piped).2 (b.execute session line piped).2
  createJob : ∀ line, (b.createJob session line).1 = (a.createJob session line).1 ∧
    Alike session (a.createJob session line).2 (b.createJob session line).2
  cancel : (b.cancel session).1 = (a.cancel session).1 ∧
    Alike session (a.cancel session).2 (b.cancel session).2
  close : Alike session (a.closeSession session) (b.closeSession session)
  turn : ∀ i j v w tie, a.tasks.lookup i = some v → b.tasks.lookup j = some w →
    TasksAlike session a b v w → AfterAlike session i j a b (a.resume tie i) (b.resume tie j)

structure Isolated (session : SessionId) (s : Shell) : Prop where
  untouched : ∀ t other, Acts session s t → other ≠ session → Untouched other s t
  sharedOnly : ∀ t other, Acts session s t → other ≠ session → SharedOnly other s t
  /- No task is begun for another session, so every task is of the session that it was started from. -/
  tasks : ∀ t, Acts session s t → ∀ e ∈ t.tasks, e ∈ s.tasks ∨ session? e.2 = some session
  kills : KillsOwn session s (s.closeSession session)
  depends : ∀ b, Reachable b → Alike session s b → Depends session s b

variable {s t : Shell} {session other : SessionId}

structure Reach (session : SessionId) (owners : List SessionId) (s t : Shell) : Prop where
  privately : Private session s t
  scopes : Elsewhere session s.scopes t.scopes
  requests : ∃ others, Asked session s.requests owners t.requests others
  tasks : ∀ e ∈ t.tasks, e ∈ s.tasks ∨ session? e.2 = some session

theorem reachOwn {owners : List SessionId} {m : RequestMove} (own : Own session owners m)
    (privately : Private session s t) (scopes : Elsewhere session s.scopes t.scopes)
    (requests : t.requests = m.run s.requests)
    (tasks : ∀ e ∈ t.tasks, e ∈ s.tasks ∨ session? e.2 = some session) : Reach session owners s t := by
  have asked : Asked session s.requests owners (m.run s.requests) (owners ++ m.makes) := .one own
  exact ⟨privately, scopes, ⟨_, requests ▸ asked⟩, tasks⟩

theorem spawnedOwn {id : TaskId} {task : Shell.Task} (own : session? task = some session)
    (e) (mem : e ∈ s.tasks ++ [(id, task)]) : e ∈ s.tasks ∨ session? e.2 = some session :=
  (List.mem_append.mp mem).imp_right fun last => by rw [List.mem_singleton.mp last, own]

theorem privateClose (h : Sound s) (session : SessionId) :
    Private session s (s.closeSession session) := by
  obtain ⟨ready, closed⟩ := Shell.closedQuietly h.toClean session
  have still {κ : Type} (dict : Dict SessionId κ) (other) (apart : other ≠ session) :
      (dict.erase session).get? other = dict.get? other := by
    rw [Dict.getErase, if_neg apart]
  rw [closed]
  exact ⟨still _, still _, fun other apart => by simp [apart], rfl⟩

theorem reach (h : Reachable s) {owners : List SessionId} (filed : Filed s owners)
    (acts : Acts session s t) : Reach session owners s t := by
  have sound := Shell.soundReachable h
  have apart := apartReachable h
  have nothing : Own session owners (.hasPending session) := trivial
  cases acts with
  | input line =>
    have own : Own session owners (.deliver session line) := rfl
    rcases Shell.takenIn s session line with ⟨ready, taken⟩ | dispatched
    · rw [taken]
      exact reachOwn own (.same rfl rfl rfl rfl) (.refl _) rfl fun _ mem => .inl mem
    · rw [dispatched]
      exact reachOwn own (.same rfl rfl rfl rfl) (.refl _) rfl (spawnedOwn rfl)
  | execute line piped =>
    exact reachOwn nothing (.same rfl rfl rfl rfl) (.refl _) rfl (spawnedOwn rfl)
  | createJob line =>
    obtain ⟨jobs, ready, same⟩ := jobStarted s session line none
    unfold Shell.createJob
    rw [same]
    exact reachOwn nothing (.same rfl rfl rfl rfl) (.refl _) rfl (spawnedOwn rfl)
  | cancel =>
    obtain ⟨ready, cancelled⟩ := Shell.cancelledQuietly sound.toClean session
    rw [cancelled]
    exact reachOwn nothing (.same rfl rfl rfl rfl) (elsewhereInterrupt apart session).1 rfl
      fun _ mem => .inl mem
  | close =>
    have privately := privateClose sound session
    have own : Own session owners (.cancel session) := rfl
    obtain ⟨ready, closed⟩ := Shell.closedQuietly sound.toClean session
    rw [closed] at privately ⊢
    exact reachOwn own privately (elsewhereDiscard apart sound.scopes session).1 rfl fun _ mem => .inl mem
  | @turn id task found own tie =>
    -- The turn counts three times: what it does to private things, to scopes, and to requests.
    have turn := resumeTurn sound found tie
    obtain ⟨begun, recorded⟩ := Foreground.recordedReachable h
    have unique := (Foreground.stagedRecorded recorded).unique
    have scopes := elsewhereTurned sound unique apart found own (Foreground.resumeTurned sound unique tie id)
    obtain ⟨others, turned⟩ := taskTurned filed (Shell.lookedUp found) own turn
    exact ⟨turn.private own, scopes, ⟨others, turned.asked⟩, fun e mem =>
      (turned.tasks e mem).imp_right fun new => new.1⟩

theorem Reach.untouched {owners : List SessionId} (reach : Reach session owners s t)
    (registered : Registered s.requests owners) (apart : other ≠ session) : Untouched other s t := by
  obtain ⟨others, asked⟩ := reach.requests
  exact {
    data := reach.privately.sessions other apart
    console := reach.privately.buffers other apart
    scope := reach.scopes.live other apart
    token := fun scope live => reach.scopes.signals other scope apart live
    pending := asked.place apart
    request := fun _ pending => asked.state registered (pendingOwned registered pending) apart
    exit := reach.privately.exits other apart }

theorem Untouched.sharedOnly (untouched : Untouched other s t) (wall : t.wall = s.wall) :
    SharedOnly other s t where
  view c scope own place live := by
    have token : t.isCancelled c.origin = s.isCancelled c.origin := by
      rw [place]
      unfold Shell.isCancelled Signals.isFired
      dsimp only
      rw [untouched.token scope live]
    unfold Shell.view Shell.store Shell.history
    rw [own, untouched.data, token, wall]
  call line := by
    unfold Shell.readCall Shell.expandLine
    rw [untouched.data]

theorem depends {a b : Shell} (ha : Reachable a) (hb : Reachable b) (alike : Alike session a b) :
    Depends session a b where
  input := inputAlike alike
  execute _ _ := { alike with }
  createJob line := startedAlike alike line none
  cancel := cancelAlike ha hb alike
  close := closeAlike (Shell.soundReachable ha).toClean (Shell.soundReachable hb).toClean alike
  turn _ _ _ _ tie found there tasks := turnsAlike ha hb alike found there tasks tie

theorem isolated (h : Reachable s) (session : SessionId) : Isolated session s := by
  obtain ⟨owners, filed⟩ := filedReachable h
  have untouched (t other) (acts : Acts session s t) (apart : other ≠ session) : Untouched other s t :=
    (reach h filed acts).untouched filed.registered apart
  exact {
    untouched := untouched
    sharedOnly := fun t other acts apart =>
      (untouched t other acts apart).sharedOnly (reach h filed acts).privately.wall
    tasks := fun t acts => (reach h filed acts).tasks
    kills := closeKills h session
    depends := fun b hb alike => depends h hb alike }

theorem executedFound (h : Sound s) (session : SessionId) (line : Text) (piped : Option (List Text)) :
    (s.execute session line piped).2.tasks.lookup ⟨s.taskCount⟩ = some (.line session line piped) :=
  lookupPut (Shell.turnNew h) _

theorem executedStill {id : TaskId} {task : Shell.Task} (found : s.tasks.lookup id = some task)
    (session : SessionId) (line : Text) (piped : Option (List Text)) :
    (s.execute session line piped).2.tasks.lookup id = some task := by
  change (s.tasks ++ _).lookup id = some task
  rw [List.lookup_append, found]
  rfl

/- A line that was handed in and has not begun makes no difference, whosever it is. -/
theorem executedAlike (s : Shell) (session other : SessionId) (line : Text) (piped : Option (List Text)) :
    Alike session s (s.execute other line piped).2 :=
  ⟨rfl, rfl, Iff.rfl, rfl, rfl, rfl, rfl, rfl, rfl, rfl, rfl, rfl⟩

def paired : Shell := (Shell.started Config.standard).openSession.2.openSession.2

def busy : Shell := ((paired.createJob ⟨0⟩ "sleep 10").2.createJob ⟨1⟩ "sleep 10").2

def typed : Shell := (busy.execute ⟨0⟩ "echo hi" none).2

theorem busyReachable : Reachable busy :=
  ((((Shell.reachableStarted Config.standard).step (.openSession _)).step (.openSession _)).step
    (.createJob paired ⟨0⟩ "sleep 10")).step (.createJob _ ⟨1⟩ "sleep 10")

theorem isolatedTwo :
    let closed := typed.closeSession ⟨0⟩
    let printed := typed.resume .event ⟨busy.taskCount⟩
    let assigned := (typed.execute ⟨1⟩ "x=1" none).2
    Isolated ⟨0⟩ typed ∧ Untouched ⟨1⟩ typed closed ∧ Untouched ⟨1⟩ typed printed ∧
      AfterAlike ⟨0⟩ ⟨busy.taskCount⟩ ⟨busy.taskCount⟩ typed assigned printed
        (assigned.resume .event ⟨busy.taskCount⟩) ∧
      (closed.jobs.get? ⟨1⟩).map JobSnapshot.status = some .killed ∧
      (closed.jobs.get? ⟨2⟩).map JobSnapshot.status = some .running ∧
      printed.plainOutput ⟨0⟩ = (["hi"] : List Text) ∧ printed.plainOutput ⟨1⟩ = [] := by
  intro closed printed assigned
  have reachable : Reachable typed := busyReachable.step (.execute busy ⟨0⟩ "echo hi" none)
  have isolated := isolated reachable ⟨0⟩
  have found := executedFound (Shell.soundReachable busyReachable) ⟨0⟩ "echo hi" none
  rw [← typed] at found
  have there := executedStill found ⟨1⟩ "x=1" none
  have same := executedAlike typed ⟨0⟩ ⟨1⟩ "x=1" none
  have next : Reachable assigned := reachable.step (.execute typed ⟨1⟩ "x=1" none)
  have apart : (⟨1⟩ : SessionId) ≠ ⟨0⟩ := by decide
  exact ⟨isolated, isolated.untouched _ _ .close apart,
    isolated.untouched _ _ (.turn found rfl .event) apart,
    (isolated.depends assigned next same).turn _ _ _ _ .event found there (.line "echo hi" none),
    by decide +kernel⟩

end ConsoleShell.Isolation
