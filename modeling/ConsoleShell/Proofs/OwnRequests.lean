import ConsoleShell.Proofs.OutsideCalls
import ConsoleShell.Proofs.TaskTurns

/-! Whose requests are whose. Requests are numbered across all sessions, and a command waits on a number; but
every request on which a command waits is one of its own session, so a command touches none but its
session's. Which session made which request is kept for the reasoning alone. -/
namespace ConsoleShell.OwnRequests
open RequestTurns Confinement
open Shell (Sound Step)

def Own (session : SessionId) (owners : List SessionId) : RequestMove → Prop
  | .await other | .deliver other _ | .cancel other => other = session
  | .poll id | .drop id => owners[id.index]? = some session
  | .hasPending _ => True

inductive Asked (session : SessionId) (r : Requests) (owners : List SessionId) :
    Requests → List SessionId → Prop where
  | none : Asked session r owners r owners
  | move {q others m} (before : Asked session r owners q others) (own : Own session others m) :
      Asked session r owners (m.run q) (others ++ m.makes)

def Files (owners : List SessionId) : Shell.Task → Prop
  | .waiting c wait => ∀ request, request? wait = some request →
      owners[request.index]? = some c.session ∧ c.origin.job? = none
  | _ => True

structure Filed (s : Shell) (owners : List SessionId) : Prop where
  registered : Registered s.requests owners
  files : ∀ e ∈ s.tasks, Files owners e.2

section Requests

variable {session other : SessionId} {r q p : Requests} {owners others : List SessionId}

theorem Asked.one {m : RequestMove} (own : Own session owners m) :
    Asked session r owners (m.run r) (owners ++ m.makes) :=
  .move .none own

theorem Asked.trans {last : List SessionId} (first : Asked session r owners q others)
    (second : Asked session q others p last) : Asked session r owners p last := by
  induction second with
  | none => exact first
  | move before own ih => exact .move ih own

theorem Asked.registered (asked : Asked session r owners q others) (registered : Registered r owners) :
    Registered q others := by
  induction asked with
  | none => exact registered
  | move before own ih => exact registeredMove ih _

theorem Asked.owned (asked : Asked session r owners q others) {n : Nat} {owner : SessionId}
    (owned : owners[n]? = some owner) : others[n]? = some owner := by
  induction asked with
  | none => exact owned
  | move before own ih =>
    obtain ⟨inside, -⟩ := List.getElem?_eq_some_iff.mp ih
    exact (List.getElem?_append_left inside).trans ih

theorem Files.kept {task : Shell.Task} (files : Files owners task)
    (asked : Asked session r owners q others) : Files others task := by
  cases task with
  | waiting c wait =>
    intro request waited
    obtain ⟨owned, foreground⟩ := files request waited
    exact ⟨asked.owned owned, foreground⟩
  | line | job | program | watcher => trivial

theorem ownElsewhere {m : RequestMove} {id : RequestId} (own : Own session owners m)
    (owned : owners[id.index]? = some other) (apart : other ≠ session) : turn? other id m = none := by
  cases m with
  | await owner | deliver owner line | cancel owner =>
    have mine : owner = session := own
    exact if_neg fun same => apart (same.trans mine)
  | poll asked | drop asked =>
    have mine : owners[asked.index]? = some session := own
    refine if_neg fun same => apart ?_
    rw [same] at owned
    exact Option.some.inj (owned.symm.trans mine)
  | hasPending owner => rfl

theorem Asked.state (asked : Asked session r owners q others) (registered : Registered r owners)
    {id : RequestId} (owned : owners[id.index]? = some other) (apart : other ≠ session) :
    q.state id = r.state id := by
  induction asked with
  | none => rfl
  | move before own ih =>
    have still := before.owned owned
    rw [moveState (before.registered registered) _ still, ownElsewhere own still apart]
    exact ih

theorem ownPlace {m : RequestMove} (own : Own session owners m) (apart : other ≠ session) :
    (m.run r).pending.get? other = r.pending.get? other := by
  refine placeStays r fun touches => ?_
  cases m with
  | await owner | deliver owner line | cancel owner =>
    have mine : owner = session := own
    exact apart ((show owner = other from touches).symm.trans mine)
  | poll id | drop id | hasPending owner => exact touches

theorem Asked.place (asked : Asked session r owners q others) (apart : other ≠ session) :
    q.pending.get? other = r.pending.get? other := by
  induction asked with
  | none => rfl
  | move before own ih => exact (ownPlace own apart).trans ih

end Requests

variable {s t u : Shell} {c : Invocation} {id : TaskId} {task : Shell.Task} {session : SessionId}
  {owners others : List SessionId}

structure Waits (c : Invocation) (s : Shell) (owners : List SessionId) (run : Halt × Shell)
    (others : List SessionId) : Prop where
  asked : Asked c.session s.requests owners run.2.requests others
  tasks : run.2.tasks = s.tasks
  waits : ∀ request, haltRequest? run.1 = some request →
    others[request.index]? = some c.session ∧ c.origin.job? = none

theorem performedWaits (registered : Registered s.requests owners) {run : Halt × Shell}
    (performed : Performed c s run) : ∃ others, Waits c s owners run others := by
  cases performed with
  | @idle halt t confined none =>
    refine ⟨owners, ?_, confined.tasks, fun request waits => ?_⟩
    · change Asked c.session s.requests owners t.requests owners
      rw [confined.requests]
      exact .none
    · cases none.symm.trans waits
  | @asks u request wait t confined asked waits =>
    obtain ⟨foreground, made, rfl⟩ := granted asked
    have own : Own c.session owners (.await c.session) := rfl
    refine ⟨owners ++ [c.session], ?_, confined.tasks, fun other waited => ?_⟩
    · change Asked c.session s.requests owners (RequestMove.run u.requests (.await c.session)) _
      rw [confined.requests]
      exact .one own
    · cases waits.symm.trans waited
      rw [confined.requests] at made
      rw [made, registered.counted]
      exact ⟨by simp, foreground⟩

theorem goesOnWaits (registered : Registered s.requests owners) {wait : Wait}
    (files : Files owners (.waiting c wait)) {run : Halt × Shell} (goesOn : GoesOn c wait s run) :
    ∃ others, Waits c s owners run others := by
  cases goesOn with
  | stays => exact ⟨owners, .none, rfl, files⟩
  | free none performed => exact performedWaits registered performed
  | @looks request m run waited look performed =>
    obtain ⟨owned, -⟩ := files request waited
    have own : Own c.session owners m := by
      rcases look with rfl | rfl
      · exact owned
      · exact owned
    obtain ⟨others, asked, tasks, waits⟩ := performedWaits (registeredMove registered m) performed
    exact ⟨others, (Asked.one own).trans asked, tasks, waits⟩

/- What a turn makes of requests and tasks. What is new among the tasks is of the same session: it is
what the task left of itself, or a task with a new number. -/
structure Turned (id : TaskId) (session : SessionId) (job : Option JobId) (s : Shell)
    (owners : List SessionId) (t : Shell) (others : List SessionId) : Prop where
  asked : Asked session s.requests owners t.requests others
  tasks : ∀ e ∈ t.tasks, e ∈ s.tasks ∨ session? e.2 = some session ∧ Files others e.2 ∧
    (e.1 = id ∧ job? e.2 = job ∨ s.taskCount ≤ e.1.number)
  taskCount : s.taskCount ≤ t.taskCount

theorem turnedSame {job : Option JobId} (requests : t.requests = s.requests)
    (tasks : t.tasks = s.tasks) (count : t.taskCount = s.taskCount) :
    Turned id session job s owners t owners :=
  ⟨requests ▸ .none, fun _ mem => .inl (tasks ▸ mem), Nat.le_of_eq count.symm⟩

theorem turnedLeft {run : Halt × Shell} (waits : Waits c s owners run others)
    (within : Within c s run.2) :
    Turned id c.session c.origin.job? s owners (Shell.leave id c run) others := by
  have left := left id (c := c) run
  have count := left.taskCount.trans within.taskCount
  refine ⟨left.requests ▸ waits.asked, fun e mem => ?_, Nat.le_of_eq count.symm⟩
  rw [left.tasks, waits.tasks] at mem
  refine (List.mem_append.mp mem).imp_right fun mem => ?_
  have own := waits.waits
  cases halt : run.1 with
  | waiting wait =>
    rw [halt] at mem own
    cases List.mem_singleton.mp mem
    exact ⟨rfl, own, .inl ⟨rfl, rfl⟩⟩
  | yielded rest =>
    rw [halt] at mem
    cases List.mem_singleton.mp mem
    exact ⟨rfl, trivial, .inl ⟨rfl, rfl⟩⟩
  | ended ending =>
    rw [halt] at mem
    cases mem

theorem commandTurned (registered : Registered s.requests owners) (files : Files owners task)
    (turn : CommandTurn id task c s t) :
    ∃ others, Turned id c.session c.origin.job? s owners t others := by
  cases turn with
  | refused outcome =>
    have concluded := confinedConclude (c := c) s id outcome
    exact ⟨owners, turnedSame concluded.requests concluded.tasks concluded.taskCount⟩
  | halted performed =>
    obtain ⟨others, waits⟩ := performedWaits registered performed
    exact ⟨others, turnedLeft waits performed.within⟩
  | wentOn same goesOn =>
    obtain ⟨others, waits⟩ := goesOnWaits registered (same ▸ files) goesOn
    exact ⟨others, turnedLeft waits goesOn.within⟩

theorem jobStarted (s : Shell) (session : SessionId) (line : Text) (piped : Option (List Text)) :
    ∃ jobs ready, s.startJob session line piped = (⟨s.jobs.lastId + 1⟩, { s with
      jobs
      ready
      tasks := s.tasks ++
        [(⟨s.taskCount⟩, .job session ⟨s.jobs.lastId + 1⟩ s.jobs.signals.create.1 line piped)]
      taskCount := s.taskCount + 1 }) := by
  have signal : (s.jobs.create session line s.wall).2.signal? (s.jobs.create session line s.wall).1 =
      some s.jobs.signals.create.1 := by
    simp [Jobs.create, Jobs.signal?, Dict.getInsert]
  unfold Shell.startJob
  dsimp only
  rw [signal]
  exact ⟨_, _, rfl⟩

theorem Turned.noted {before after : Shell} {job : Option JobId} (first : Noted session s before)
    (turned : Turned id session job before owners after others) (last : Noted session after t) :
    Turned id session job s owners t others := by
  obtain ⟨asked, tasks, count⟩ := turned
  rw [first.requests, ← last.requests] at asked
  rw [first.tasks, first.taskCount, ← last.tasks] at tasks
  rw [first.taskCount, ← last.taskCount] at count
  exact ⟨asked, tasks, count⟩

theorem startTurned (s : Shell) (session : SessionId) (line : Text) (piped : Option (List Text)) :
    Turned id session none s owners (s.startJob session line piped).2 owners := by
  obtain ⟨jobs, ready, same⟩ := jobStarted s session line piped
  rw [same]
  refine ⟨.none, fun e mem => ?_, Nat.le_succ _⟩
  refine (List.mem_append.mp mem).imp_right fun mem => ?_
  cases List.mem_singleton.mp mem
  exact ⟨rfl, trivial, .inr (Nat.le_refl _)⟩

theorem lineTurned (registered : Registered s.requests owners) (files : Files owners task)
    (turn : LineTurn id task session s t) : ∃ others, Turned id session none s owners t others := by
  cases turn with
  | noted noted => exact ⟨owners, turnedSame noted.requests noted.tasks noted.taskCount⟩
  | job before after => exact ⟨owners, (startTurned _ session _ _).noted before after⟩
  | command before own foreground turn =>
    obtain ⟨others, turned⟩ := commandTurned (before.requests ▸ registered) files turn
    rw [own, foreground] at turned
    exact ⟨others, turned.noted before (.refl _)⟩

theorem Turned.taken {job : Option JobId}
    (turned : Turned id session job (s.withdraw id) owners t others) :
    Turned id session job s owners t others :=
  ⟨turned.asked, fun e mem => (turned.tasks e mem).imp_left fun old => (List.mem_filter.mp old).1,
    turned.taskCount⟩

theorem taskTurned (filed : Filed s owners) (listed : (id, task) ∈ s.tasks)
    (own : session? task = some session) (turn : TaskTurn s id task t) :
    ∃ others, Turned id session (job? task) s owners t others := by
  have files : Files owners task := filed.files _ listed
  have registered : Registered (s.withdraw id).requests owners := filed.registered
  cases turn with
  | waits => exact ⟨owners, turnedSame rfl rfl rfl⟩
  | line other foreground turn =>
    cases own.symm.trans other
    obtain ⟨others, turned⟩ := lineTurned registered files turn
    exact ⟨others, foreground ▸ turned.taken⟩
  | command other place turn =>
    cases own.symm.trans other
    obtain ⟨others, turned⟩ := commandTurned registered files turn
    exact ⟨others, place ▸ turned.taken⟩
  | watcher same =>
    rw [same] at own
    contradiction

theorem filedTurned {job : Option JobId} (filed : Filed s owners)
    (turned : Turned id session job s owners t others) : Filed t others where
  registered := turned.asked.registered filed.registered
  files e mem := by
    rcases turned.tasks e mem with old | ⟨-, files, -⟩
    · exact (filed.files e old).kept turned.asked
    · exact files

structure Descends (s t : Shell) : Prop where
  tasks : ∀ e ∈ t.tasks, s.taskCount ≤ e.1.number ∨
    ∃ old, (e.1, old) ∈ s.tasks ∧ session? e.2 = session? old ∧ job? e.2 = job? old
  taskCount : s.taskCount ≤ t.taskCount

structure Outside (s t : Shell) : Prop where
  requests : ∃ m : RequestMove, m.makes = [] ∧ t.requests = m.run s.requests
  tasks : ∀ e ∈ t.tasks, e ∈ s.tasks ∨ s.taskCount ≤ e.1.number ∧ ∀ owners, Files owners e.2
  taskCount : s.taskCount ≤ t.taskCount

theorem Outside.filed (outside : Outside s t) (filed : Filed s owners) : Filed t owners where
  registered := by
    obtain ⟨m, quiet, moved⟩ := outside.requests
    exact moved ▸ registeredStill filed.registered quiet
  files e mem := (outside.tasks e mem).elim (filed.files e) fun new => new.2 owners

theorem Outside.descends (outside : Outside s t) : Descends s t where
  tasks e mem := (outside.tasks e mem).symm.imp (fun new => new.1) fun old => ⟨e.2, old, rfl, rfl⟩
  taskCount := outside.taskCount

theorem outsideSame (requests : t.requests = s.requests) (tasks : t.tasks = s.tasks)
    (count : t.taskCount = s.taskCount) : Outside s t :=
  ⟨⟨.hasPending ⟨0⟩, rfl, requests⟩, fun _ mem => .inl (tasks ▸ mem), Nat.le_of_eq count.symm⟩

theorem outsideMove {m : RequestMove} (quiet : m.makes = []) (requests : t.requests = m.run s.requests)
    (tasks : t.tasks = s.tasks) (count : t.taskCount = s.taskCount) : Outside s t :=
  ⟨⟨m, quiet, requests⟩, fun _ mem => .inl (tasks ▸ mem), Nat.le_of_eq count.symm⟩

theorem outsideSpawn {m : RequestMove} (quiet : m.makes = []) (requests : t.requests = m.run s.requests)
    (tasks : t.tasks = s.tasks ++ [(⟨s.taskCount⟩, task)]) (count : t.taskCount = s.taskCount + 1)
    (files : ∀ owners, Files owners task) : Outside s t := by
  refine ⟨⟨m, quiet, requests⟩, fun e mem => ?_, by rw [count]; exact Nat.le_succ _⟩
  rw [tasks] at mem
  refine (List.mem_append.mp mem).imp_right fun mem => ?_
  cases List.mem_singleton.mp mem
  exact ⟨Nat.le_refl _, files⟩

theorem stepOutside (h : Sound s) (step : Step s t) :
    (∃ tie id, t = s.resume tie id) ∨ Outside s t := by
  have makesNothing : RequestMove.makes (.hasPending ⟨0⟩) = [] := rfl
  cases step with
  | resume tie id => exact .inl ⟨tie, id, rfl⟩
  | closeSession session =>
    obtain ⟨ready, closed⟩ := Shell.closedQuietly h.toClean session
    rw [closed]
    exact .inr (outsideMove (m := .cancel session) rfl rfl rfl rfl)
  | input session line =>
    rcases Shell.takenIn s session line with ⟨ready, taken⟩ | dispatched
    · rw [taken]
      exact .inr (outsideMove (m := .deliver session line) rfl rfl rfl rfl)
    · rw [dispatched]
      exact .inr (outsideSpawn (m := .deliver session line) rfl rfl rfl rfl fun _ => trivial)
  | execute session line piped => exact .inr (outsideSpawn makesNothing rfl rfl rfl fun _ => trivial)
  | cancel session =>
    obtain ⟨ready, cancelled⟩ := Shell.cancelledQuietly h.toClean session
    rw [cancelled]
    exact .inr (outsideSame rfl rfl rfl)
  | createJob session line =>
    obtain ⟨jobs, ready, same⟩ := jobStarted s session line .none
    unfold Shell.createJob
    rw [same]
    exact .inr (outsideSpawn makesNothing rfl rfl rfl fun _ => trivial)
  | killJob id =>
    obtain ⟨ready, killed⟩ := Shell.killedQuietly h.toClean id
    rw [killed]
    exact .inr (outsideSame rfl rfl rfl)
  | watchJob id =>
    unfold Shell.watchJob Shell.look
    dsimp only
    split
    · exact .inr (outsideSpawn makesNothing rfl rfl rfl fun _ => trivial)
    · exact .inr ⟨⟨_, makesNothing, rfl⟩, fun _ mem => .inl mem, Nat.le_succ _⟩
  | _ => exact .inr (outsideSame rfl rfl rfl)

theorem lookTasks (s : Shell) (id : TaskId) (job : JobId) :
    (s.look id job).requests = s.requests ∧ (s.look id job).taskCount = s.taskCount ∧
      ∀ e ∈ (s.look id job).tasks, e ∈ s.tasks ∨ e.1 = id ∧ ∃ watch, e.2 = .watcher watch := by
  unfold Shell.look
  split
  · refine ⟨rfl, rfl, fun e mem => ?_⟩
    refine (List.mem_append.mp mem).imp_right fun mem => ?_
    cases List.mem_singleton.mp mem
    exact ⟨rfl, _, rfl⟩
  · exact ⟨rfl, rfl, fun e mem => .inl mem⟩

theorem filedResume (h : Sound s) (filed : Filed s owners) (tie : Shell.Tie) (id : TaskId) :
    ∃ others, Filed (s.resume tie id) others ∧ Descends s (s.resume tie id) := by
  cases found : s.tasks.lookup id with
  | none =>
    have same : s.resume tie id = s.withdraw id := by
      unfold Shell.resume
      rw [found]
    have old (e) (mem : e ∈ (s.withdraw id).tasks) : e ∈ s.tasks := (List.mem_filter.mp mem).1
    rw [same]
    exact ⟨owners, ⟨filed.registered, fun e mem => filed.files e (old e mem)⟩,
      fun e mem => .inr ⟨e.2, old e mem, rfl, rfl⟩, Nat.le_refl _⟩
  | some task =>
    have listed := Shell.lookedUp found
    have turn := resumeTurn h found tie
    generalize s.resume tie id = t at turn
    cases own : session? task with
    | some session =>
      obtain ⟨others, turned⟩ := taskTurned filed listed own turn
      refine ⟨others, filedTurned filed turned, fun e mem => ?_, turned.taskCount⟩
      rcases turned.tasks e mem with old | ⟨mine, -, ⟨same, job⟩ | new⟩
      · exact .inr ⟨e.2, old, rfl, rfl⟩
      · exact .inr ⟨task, same ▸ listed, mine.trans own.symm, job⟩
      · exact .inl new
    | none =>
      cases turn with
      | waits =>
        exact ⟨owners, ⟨filed.registered, filed.files⟩, fun e mem => .inr ⟨e.2, mem, rfl, rfl⟩,
          Nat.le_refl _⟩
      | line other foreground turn => cases own.symm.trans other
      | command other place turn => cases own.symm.trans other
      | @watcher watch same =>
        obtain ⟨requests, count, tasks⟩ := lookTasks (s.withdraw id) id watch.job
        have old (e) (mem : e ∈ (s.withdraw id).tasks) : e ∈ s.tasks := (List.mem_filter.mp mem).1
        refine ⟨owners, ⟨requests ▸ filed.registered, fun e mem => ?_⟩, fun e mem => .inr ?_,
          Nat.le_of_eq count.symm⟩
        · rcases tasks e mem with before | ⟨-, watch, watches⟩
          · exact filed.files e (old e before)
          · exact watches ▸ trivial
        · rcases tasks e mem with before | ⟨equal, watch, watches⟩
          · exact ⟨e.2, old e before, rfl, rfl⟩
          · exact ⟨task, equal ▸ listed, by rw [watches, same]; rfl, by rw [watches, same]; rfl⟩

theorem filedStep (h : Sound s) (filed : Filed s owners) (step : Step s t) :
    ∃ others, Filed t others ∧ Descends s t := by
  rcases stepOutside h step with ⟨tie, id, rfl⟩ | outside
  · exact filedResume h filed tie id
  · exact ⟨owners, outside.filed filed, outside.descends⟩

theorem filedReachable (h : Shell.Reachable s) : ∃ owners, Filed s owners := by
  induction h with
  | start made =>
    obtain ⟨registry, rfl⟩ := Shell.registerElsewhere made
    exact ⟨[], registeredEmpty, fun _ mem => nomatch mem⟩
  | step before move ih =>
    obtain ⟨owners, filed⟩ := ih
    obtain ⟨others, later, -⟩ := filedStep (Shell.soundReachable before) filed move
    exact ⟨others, later⟩

end ConsoleShell.OwnRequests
