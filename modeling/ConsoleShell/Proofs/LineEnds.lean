import ConsoleShell.Proofs.Offstage

/-! What a turn comes to, and what is recorded of it. A turn records at most what became of its own line:
that it was done with or refused at once, or how its command ended, in the line's first turn or in a
later one. -/
namespace ConsoleShell.Shell

def opened (s : Shell) (id : TaskId) (session : SessionId) (typed : Text) : Scope × Shell :=
  ((s.withdraw id).remember session (Text.trim typed)).beginScope session

/- A line that is about to be read in the turn of its task: where it runs, and in which shell. -/
inductive Begins (s : Shell) (id : TaskId) :
    SessionId → Origin → Text → Option (List Text) → Shell → Prop where
  | line {session typed piped} (stands : s.tasks.lookup id = some (.line session typed piped)) :
      Begins s id session (.foreground (s.opened id session typed).1) (Text.trim typed) piped
        (s.opened id session typed).2
  | job {session job signal text piped}
      (stands : s.tasks.lookup id = some (.job session job signal text piped)) :
      Begins s id session (.job job signal) text piped (s.withdraw id)

inductive Runs (tie : Tie) (s : Shell) (id : TaskId) : Invocation → Halt × Shell → Prop where
  | called {session origin line piped t call} (begins : Begins s id session origin line piped t)
      (read : t.readCall session line = .ok (some call)) :
      Runs tie s id ⟨session, origin, some call.command.name⟩
        (perform ⟨session, origin, some call.command.name⟩ fullTurn
          (call.command.handler call.arguments ⟨origin.job?, piped⟩) t)
  | program {c program} (stands : s.tasks.lookup id = some (.program c program)) :
      Runs tie s id c (perform c fullTurn program (s.withdraw id))
  | waited {c wait} (stands : s.tasks.lookup id = some (.waiting c wait)) :
      Runs tie s id c (goOn tie c wait (s.withdraw id))

inductive Resumed (tie : Tie) (s : Shell) (id : TaskId) : Shell → Prop where
  | absent (missing : s.tasks.lookup id = none) : Resumed tie s id (s.withdraw id)
  | stuck {task} (stands : s.tasks.lookup id = some task) (still : s.canMove task = false) :
      Resumed tie s id { s with ready := s.ready.filter fun other => !decide (other = id) }
  | watches {watch} (stands : s.tasks.lookup id = some (.watcher watch)) :
      Resumed tie s id ((s.withdraw id).look id watch.job)
  | noted {t session typed piped} (stands : s.tasks.lookup id = some (.line session typed piped))
      (done : t.outcomes = s.outcomes ++ [(id, .ok)]) (tasks : t.tasks = (s.withdraw id).tasks)
      (jobs : t.jobs = s.jobs) : Resumed tie s id t
  | starts {t session typed piped command}
      (stands : s.tasks.lookup id = some (.line session typed piped))
      (done : t.outcomes = s.outcomes ++ [(id, .ok)])
      (tasks : t.tasks = (s.withdraw id).tasks ++ [(⟨s.taskCount⟩,
        .job session ⟨s.jobs.lastId + 1⟩ s.jobs.signals.create.1 command piped)])
      (jobs : t.jobs = (s.jobs.create session command s.wall).2) : Resumed tie s id t
  | refused {session origin line piped t error} (begins : Begins s id session origin line piped t)
      (read : t.readCall session line = .error error) :
      Resumed tie s id (t.conclude id session origin (.failed error))
  | wordless {session origin line piped t} (begins : Begins s id session origin line piped t)
      (read : t.readCall session line = .ok none) :
      Resumed tie s id (t.conclude id session origin .ok)
  | ran {c run} (runs : Runs tie s id c run) : Resumed tie s id (leave id c run)

variable {s t : Shell} {tie : Tie} {id : TaskId} {c : Invocation} {run : Halt × Shell}
  {session : SessionId} {origin : Origin} {line : Text} {piped : Option (List Text)}

theorem dispatchResumed (begins : Begins s id session origin line piped t) :
    Resumed tie s id (t.dispatch id session origin line piped) := by
  unfold Shell.dispatch
  split
  · rename_i read
    exact .refused begins read
  · rename_i read
    exact .wordless begins read
  · rename_i read
    exact .ran (.called begins read)

theorem startResumed {typed : Text} (stands : s.tasks.lookup id = some (.line session typed piped)) :
    Resumed tie s id ((s.withdraw id).startLine id session typed piped) := by
  unfold Shell.startLine
  dsimp only
  split
  · exact .noted stands rfl rfl rfl
  generalize remembered : (s.withdraw id).remember session (Text.trim typed) = u
  have before : u.outcomes = s.outcomes := remembered ▸ rfl
  have tasks : u.tasks = (s.withdraw id).tasks := remembered ▸ rfl
  have jobs : u.jobs = s.jobs := remembered ▸ rfl
  split
  · rename_i assignment assigned made
    obtain ⟨data, -, made⟩ := Option.bind_eq_some_iff.mp made
    obtain ⟨⟨_, store⟩, -, same⟩ := Option.bind_eq_some_iff.mp made
    cases same
    exact .noted stands (congrArg (· ++ [(id, Outcome.ok)]) before) tasks jobs
  · split
    · rename_i command _
      have count : u.taskCount = s.taskCount := remembered ▸ rfl
      have wall : u.wall = s.wall := remembered ▸ rfl
      have created := ShellJobs.deedsStart u session command piped
      obtain ⟨after, ready, same⟩ := OwnRequests.jobStarted u session command piped
      have listed : u.tasks ++ [(⟨u.taskCount⟩,
            Task.job session ⟨u.jobs.lastId + 1⟩ u.jobs.signals.create.1 command piped)] =
          (s.withdraw id).tasks ++ [(⟨s.taskCount⟩,
            Task.job session ⟨s.jobs.lastId + 1⟩ s.jobs.signals.create.1 command piped)] := by
        rw [tasks, count, jobs]
      rw [same] at created ⊢
      rw [jobs, wall] at created
      exact .starts stands (congrArg (· ++ [(id, Outcome.ok)]) before) listed created
    · have begins := Begins.line stands
      unfold opened at begins
      rw [remembered] at begins
      exact dispatchResumed begins

theorem resumeResumed (tie : Tie) (s : Shell) (id : TaskId) : Resumed tie s id (s.resume tie id) := by
  unfold Shell.resume
  split
  · rename_i missing
    exact .absent missing
  · rename_i task stands
    split
    · dsimp only
      split
      · exact startResumed stands
      · exact dispatchResumed (.job stands)
      · exact .ran (.program stands)
      · exact .ran (.waited stands)
      · exact .watches stands
    · rename_i still
      exact .stuck stands (Bool.eq_false_iff.mpr still)

theorem assignSame (sessions : t.sessions = s.sessions) (plain : s.assign? session line = none) :
    t.assign? session line = none :=
  Offstage.assignsNothing.mpr fun data there => Offstage.assignsNothing.mp plain data (sessions ▸ there)

theorem startsCommand {typed : Text} (tie : Tie)
    (stands : s.tasks.lookup id = some (.line session typed piped)) (words : Text.trim typed ≠ [])
    (plain : s.assign? session (Text.trim typed) = none)
    (foreground : Background.command? (Text.trim typed) = none) :
    s.resume tie id = (s.opened id session typed).2.dispatch id session
      (.foreground (s.opened id session typed).1) (Text.trim typed) piped := by
  have moves : s.canMove (.line session typed piped) = true := rfl
  have rest : (s.withdraw id).assign? session (Text.trim typed) = none :=
    Offstage.assignsNothing.mpr fun data there => Offstage.assignsNothing.mp plain data there
  have unassigned := Offstage.assignRemembered rest
  have visible : (Text.trim typed).isEmpty = false := by simpa using words
  unfold Shell.resume Shell.startLine
  rw [stands]
  simp only [moves, visible, unassigned, foreground, if_true, Bool.false_eq_true, if_false]
  rfl

theorem startsJob {typed command : Text} (tie : Tie)
    (stands : s.tasks.lookup id = some (.line session typed piped))
    (plain : s.assign? session (Text.trim typed) = none)
    (background : Background.command? (Text.trim typed) = some command) :
    ∃ console outcomes ready, s.resume tie id =
      { (s.withdraw id).remember session (Text.trim typed) with
        jobs := (s.jobs.create session command s.wall).2
        tasks := (s.withdraw id).tasks ++ [(⟨s.taskCount⟩,
          .job session ⟨s.jobs.lastId + 1⟩ s.jobs.signals.create.1 command piped)]
        taskCount := s.taskCount + 1
        console, outcomes, ready } := by
  have moves : s.canMove (.line session typed piped) = true := rfl
  have words : (Text.trim typed).isEmpty = false := by
    cases trimmed : Text.trim typed with
    | nil =>
      rw [trimmed] at background
      cases background
    | cons first rest => rfl
  have rest : (s.withdraw id).assign? session (Text.trim typed) = none := assignSame (s := s) rfl plain
  have unassigned := Offstage.assignRemembered rest
  have created := ShellJobs.deedsStart ((s.withdraw id).remember session (Text.trim typed)) session command
    piped
  obtain ⟨after, ready, same⟩ :=
    OwnRequests.jobStarted ((s.withdraw id).remember session (Text.trim typed)) session command piped
  rw [same] at created
  cases (created : after = (s.jobs.create session command s.wall).2)
  unfold Shell.resume Shell.startLine
  rw [stands]
  simp only [moves, words, unassigned, background, if_true, Bool.false_eq_true, if_false]
  rw [same]
  exact ⟨_, _, _, rfl⟩

def ended? (c : Invocation) : Halt → Option Outcome
  | .ended ending =>
    match c.command, c.origin with
    | some name, .foreground _ => some (ending.outcome name)
    | _, _ => none
  | _ => none

theorem leaveCommand {ending : Ending} {name : Text} (ended : run.1 = .ended ending)
    (named : c.command = some name) :
    leave id c run = run.2.conclude id c.session c.origin (ending.outcome name) := by
  obtain ⟨halt, t⟩ := run
  cases (ended : halt = _)
  unfold Shell.leave
  rw [named]

theorem concludeRecords (s : Shell) (id : TaskId) (session : SessionId) (scope : Scope)
    (outcome : Outcome) :
    (s.conclude id session (.foreground scope) outcome).outcomes = s.outcomes ++ [(id, outcome)] := by
  unfold Shell.conclude
  dsimp only
  split
  · rename_i error
    exact congrArg (· ++ [(id, Outcome.failed error)])
      (keptPrintAt s session none .error (Markup.escape error.message)).outcomes
  · rfl

theorem concludeSilent (s : Shell) (id : TaskId) (session : SessionId) (job : JobId)
    (signal : SignalId) (outcome : Outcome) :
    (s.conclude id session (.job job signal) outcome).outcomes = s.outcomes := by
  unfold Shell.conclude
  dsimp only
  split
  · exact (keptSettle _ _ _).outcomes
  · rfl

theorem leaveRecords (id : TaskId) (c : Invocation) (run : Halt × Shell) :
    (leave id c run).outcomes =
      run.2.outcomes ++ ((ended? c run.1).map fun outcome => (id, outcome)).toList := by
  obtain ⟨halt, t⟩ := run
  unfold leave ended?
  cases halt with
  | waiting wait => exact (List.append_nil _).symm
  | yielded rest => exact (List.append_nil _).symm
  | ended ending =>
    dsimp only
    split
    · rename_i name origin command
      cases place : c.origin with
      | foreground scope => simp [command, concludeRecords]
      | job job signal => simp [command, concludeSilent]
    · rename_i job signal command place
      split
      · simp [command, (keptSettle _ _ _).outcomes]
      · simp [command]
    · rename_i scope command place
      simp [command, Shell.finishScope]

theorem keptOpened (s : Shell) (id : TaskId) (session : SessionId) (typed : Text) :
    Kept (s.withdraw id) (s.opened id session typed).2 :=
  (keptSession (s.withdraw id) session _).trans (keptOnScopes _ _)

/- Until its command has been run, nothing but what commands may change has changed. -/
theorem Begins.kept (begins : Begins s id session origin line piped t) : Kept (s.withdraw id) t := by
  cases begins with
  | line stands => exact keptOpened s id _ _
  | job stands => exact .refl _

theorem Runs.kept (runs : Runs tie s id c run) : Kept (s.withdraw id) run.2 := by
  cases runs with
  | called begins read => exact begins.kept.trans (keptPerform _ _ _ _)
  | program stands => exact keptPerform _ _ _ _
  | waited stands => exact keptGoOn _ _ _ _

inductive LineEnd (tie : Tie) (s : Shell) (id : TaskId) (t : Shell) : Outcome → Prop where
  | done {session typed piped} (stands : s.tasks.lookup id = some (.line session typed piped)) :
      LineEnd tie s id t .ok
  | refused {session typed piped error}
      (stands : s.tasks.lookup id = some (.line session typed piped))
      (read : (s.opened id session typed).2.readCall session (Text.trim typed) = .error error)
      (turn : t = (s.opened id session typed).2.conclude id session
        (.foreground (s.opened id session typed).1) (.failed error)) :
      LineEnd tie s id t (.failed error)
  | command {c run ending name scope} (runs : Runs tie s id c run) (named : c.command = some name)
      (place : c.origin = .foreground scope) (ends : run.1 = .ended ending) (turn : t = leave id c run) :
      LineEnd tie s id t (ending.outcome name)

theorem endedCommand {outcome : Outcome} {halt : Halt} (ended : ended? c halt = some outcome) :
    ∃ ending name scope, halt = .ended ending ∧ c.command = some name ∧
      c.origin = .foreground scope ∧ outcome = ending.outcome name := by
  unfold ended? at ended
  split at ended
  · split at ended
    · rename_i name scope command place
      exact ⟨_, name, scope, rfl, command, place, (Option.some.inj ended).symm⟩
    · contradiction
  · contradiction

theorem resumeRecords (tie : Tie) (s : Shell) (id : TaskId) :
    (s.resume tie id).outcomes = s.outcomes ∨
      ∃ outcome, LineEnd tie s id (s.resume tie id) outcome ∧
        (s.resume tie id).outcomes = s.outcomes ++ [(id, outcome)] := by
  have resumed := resumeResumed tie s id
  generalize s.resume tie id = t at resumed ⊢
  cases resumed with
  | absent none => exact .inl rfl
  | stuck stands still => exact .inl rfl
  | @watches watch stands =>
    left
    unfold Shell.look
    split <;> rfl
  | noted stands done tasks jobs | starts stands done tasks jobs =>
    exact .inr ⟨.ok, .done stands, done⟩
  | refused begins read =>
    have before := begins.kept.outcomes
    cases begins with
    | line stands => exact .inr ⟨_, .refused stands read rfl, by rw [concludeRecords, before]; rfl⟩
    | job stands => exact .inl (concludeSilent _ _ _ _ _ _)
  | wordless begins read =>
    have before := begins.kept.outcomes
    cases begins with
    | line stands => exact .inr ⟨_, .done stands, by rw [concludeRecords, before]; rfl⟩
    | job stands => exact .inl (concludeSilent _ _ _ _ _ _)
  | @ran c run runs =>
    rw [leaveRecords, (runs.kept.outcomes : run.2.outcomes = s.outcomes)]
    cases ended : ended? c run.1 with
    | none => exact .inl (List.append_nil _)
    | some outcome =>
      obtain ⟨ending, name, scope, halt, command, place, rfl⟩ := endedCommand ended
      exact .inr ⟨_, .command runs command place halt rfl, rfl⟩

theorem newlyRecorded {ended : TaskId} {outcome : Outcome} (fresh : (ended, outcome) ∉ s.outcomes)
    (ends : (ended, outcome) ∈ (s.resume tie id).outcomes) :
    ended = id ∧ LineEnd tie s id (s.resume tie id) outcome ∧
      (s.resume tie id).outcomes = s.outcomes ++ [(id, outcome)] := by
  rcases resumeRecords tie s id with same | ⟨other, recorded, added⟩
  · exact absurd (same ▸ ends) fresh
  · rw [added] at ends
    obtain ⟨rfl, rfl⟩ := Prod.mk.inj (List.mem_singleton.mp ((List.mem_append.mp ends).resolve_left fresh))
    exact ⟨rfl, recorded, added⟩

end ConsoleShell.Shell
