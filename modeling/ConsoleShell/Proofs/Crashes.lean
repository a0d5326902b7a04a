import ConsoleShell.Proofs.Continuations
import ConsoleShell.Proofs.FiredScopes
import ConsoleShell.Proofs.JobWaiting
import ConsoleShell.Proofs.LongSpans
import ConsoleShell.Proofs.SessionKills

/-! Commands that crash. Every text can be typed, but just one thing makes a command end without an answer: a
span of time that is a number as it should be and still too long to be counted. Nothing is recorded
then of a job, so it counts as running although nobody is at work on it any more; every other job that
runs has its task. -/
namespace ConsoleShell.Crashes
open Actions Duration
open Confinement (Works TaskTurn LineTurn job? remains confinedConclude left)
open Shell (Reachable Step Sound Runs Begins LineEnd)

/- A call with a span of 2 ^ 64 seconds or more, for which nothing else speaks against it. -/
inductive Crashing (name : Text) (arguments : Arguments) : Prop where
  | sleep {seconds} (own : name = "sleep")
      (read : Double.read? (arguments.positionals.headD []) = some seconds)
      (finite : seconds.isFinite = true) (overlong : Overlong seconds)
  | progress {steps delay} (own : name = "progress")
      (steps : (arguments.number? "steps").bind (Double.wholeBetween? 1 Builtin.Progress.maxSteps) =
        some steps)
      (given : arguments.number? "delay" = some delay)
      (sound : delay.isFinite = true ∧ delay.isNonNegative = true)
      (overlong : Overlong (delay.divideBy 1000))

theorem sleepCrashes (arguments : Arguments) (caller : Caller) :
    Builtin.runSleep arguments caller = .crash ↔
      ∃ seconds, Double.read? (arguments.positionals.headD []) = some seconds ∧
        seconds.isFinite = true ∧ Overlong seconds := by
  unfold Builtin.runSleep
  dsimp only
  cases read : Double.read? (arguments.positionals.headD []) with
  | none => simp
  | some seconds =>
    simp only [Option.some.injEq, exists_eq_left']
    by_cases positive : seconds.isNonNegative = true
    · rw [← notCounted (Double.shortRead read) positive]
      by_cases finite : seconds.isFinite = true
      · cases span : ofSeconds? seconds <;> simp [Option.filter, finite, positive, span]
      · simp [Option.filter, finite]
    · simp only [Option.filter, Bool.and_eq_true, positive]
      exact iff_of_false (by simp) fun long => positive (overlongPositive long.2)

theorem progressCrashes (arguments : Arguments) (caller : Caller) :
    Builtin.runProgress arguments caller = .crash ↔
      ∃ steps delay, (arguments.number? "steps").bind
          (Double.wholeBetween? 1 Builtin.Progress.maxSteps) = some steps ∧
        arguments.number? "delay" = some delay ∧
        (delay.isFinite = true ∧ delay.isNonNegative = true) ∧ Overlong (delay.divideBy 1000) := by
  have counted : (ofSeconds? ((Double.ofRatio false 100 1).divideBy 1000)).isSome = true := by
    decide +kernel
  have sound : (Double.ofRatio false 100 1).isFinite = true ∧
      (Double.ofRatio false 100 1).isNonNegative = true := by
    decide +kernel
  unfold Builtin.runProgress
  dsimp only
  cases (arguments.number? "steps").bind (Double.wholeBetween? 1 Builtin.Progress.maxSteps) with
  | none => simp
  | some steps =>
    cases arguments.number? "delay" with
    | none =>
      obtain ⟨span, measured⟩ := Option.isSome_iff_exists.mp counted
      simp [measured, sound]
    | some delay =>
      by_cases sound : delay.isFinite = true ∧ delay.isNonNegative = true
      · have counted := notCounted (Double.shortDivided delay 1000) (Double.dividedPositive sound.2 1000)
        simp only [Option.some.injEq, exists_and_left, exists_eq_left', ← counted]
        cases span : ofSeconds? (delay.divideBy 1000) <;> simp [sound, span]
      · rcases Classical.not_and_iff_not_or_not.mp sound with finite | positive
        · simp [finite]
        · simp [positive]

theorem crashCalls {d : Declaration} (mem : d ∈ Builtin.all) {arguments : Arguments} {caller : Caller}
    (crash : d.handler arguments caller = .crash) : Crashing d.name arguments := by
  have uncrashed (each : Each Orderly (d.handler arguments caller)) : False := by
    have orderly := each.here
    rwa [crash] at orderly
  have orderly {name : Text} {p : Program} (each : Each (Naming (Heedful name)) p) : Each Orderly p :=
    each.mono fun _ naming => heedfulOrderly (namingHere (fun _ _ _ => trivial) naming)
  rcases briefCommands mem with pauses | brief
  · simp only [pausing, List.mem_cons, List.not_mem_nil, or_false] at pauses
    rcases pauses with rfl | rfl | rfl | rfl | rfl
    · exact (uncrashed (orderly (heedfulConfirm arguments caller))).elim
    · have heedful : Each (Naming (Heedful "fg")) (Builtin.fg.handler arguments caller) :=
        heedfulFg arguments caller
      exact (uncrashed (orderly heedful)).elim
    · obtain ⟨steps, delay, whole, given, sound, overlong⟩ :=
        (progressCrashes arguments caller).mp crash
      exact .progress rfl whole given sound overlong
    · exact (uncrashed (orderly (heedfulRead arguments caller))).elim
    · obtain ⟨seconds, read, finite, overlong⟩ := (sleepCrashes arguments caller).mp crash
      exact .sleep rfl read finite overlong
  · exact (uncrashed ((brief arguments caller).mono fun _ => orderlyBrief)).elim

theorem declaredOnce {d e : Declaration} (mem : d ∈ Builtin.all) (other : e ∈ Builtin.all)
    (same : d.name = e.name) : d = e := by
  have distinct : (Builtin.all.map (·.name)).Nodup := by decide
  have apart := List.pairwise_map.mp distinct
  exact List.Pairwise.forall_of_forall_of_flip (R := fun d e => d.name = e.name → d = e)
    (fun _ _ _ => rfl) (apart.imp fun differ equal => absurd equal differ)
    (apart.imp fun differ equal => absurd equal.symm differ) mem other same

theorem callsCrash {d : Declaration} (mem : d ∈ Builtin.all) {arguments : Arguments} (caller : Caller)
    (crashing : Crashing d.name arguments) : d.handler arguments caller = .crash := by
  cases crashing with
  | sleep own read finite overlong =>
    cases declaredOnce mem (by simp [Builtin.all] : Builtin.sleep ∈ Builtin.all) own
    exact (sleepCrashes arguments caller).mpr ⟨_, read, finite, overlong⟩
  | progress own whole given sound overlong =>
    cases declaredOnce mem (by simp [Builtin.all] : Builtin.progress ∈ Builtin.all) own
    exact (progressCrashes arguments caller).mpr ⟨_, _, whole, given, sound, overlong⟩

variable {s t : Shell} {tie : Shell.Tie} {id : TaskId} {c : Invocation} {run : Halt × Shell}
  {job : JobId} {task : Shell.Task}

def CallsCrash (t : Shell) (session : SessionId) (line : Text) : Prop :=
  ∃ call, t.readCall session line = .ok (some call) ∧ Crashing call.command.name call.arguments

theorem runsCrashed (h : Reachable s) (runs : Runs tie s id c run) (crashed : run.1 = .ended .crashed) :
    ∃ line piped t, Begins s id c.session c.origin line piped t ∧ CallsCrash t c.session line := by
  have provided := (Shell.soundReachable h).provided
  have under := eachReachable everyOrderly h
  have uncrashed (each : HaltEach Orderly run.1) : False := by
    rw [crashed] at each
    exact each rfl
  cases runs with
  | @called session origin line piped t call begins read =>
    have known := begins.kept.commands.symm ▸ provided
    rcases calledEvery everyOrderly known read ⟨origin.job?, piped⟩ with crash | each
    · obtain ⟨d, mem, named, handler⟩ := calledDeclared known read
      rw [handler] at crash
      exact ⟨line, piped, t, begins, call, read, named ▸ crashCalls mem crash⟩
    · exact (uncrashed (haltPerform each _)).elim
  | program stands => exact (uncrashed (haltPerform (under _ (Shell.lookedUp stands)).2.2 _)).elim
  | waited stands => exact (uncrashed (haltGoOn (under _ (Shell.lookedUp stands)).2 tie)).elim

theorem keepsRunning {own : Prop} {before after : Job} (keeps : Confinement.Keeps own before after)
    (running : after.status = .running) : before.status = .running := by
  cases final : before.status.isFinal with
  | false => exact SessionKills.stillRuns.mp final
  | true =>
    rw [← keeps.status final, running] at final
    contradiction

theorem ranBefore {own : Option JobId} {j k : Jobs Echo} (works : Works own j k) (sorted : j.table.Sorted)
    (runs : JobWaiting.Runs k job) : JobWaiting.Runs j job := by
  obtain ⟨after, there, running⟩ := runs
  obtain ⟨before, found, keeps⟩ := (works.kept sorted).jobs job after there
  exact ⟨before, found, keepsRunning keeps running⟩

theorem settledEnds (j : Jobs Echo) (id : JobId) (result : JobResult) (now : Nat) :
    ¬ JobWaiting.Runs (j.settle id result now) id := by
  rintro ⟨after, there, running⟩
  rcases j.settleCases id result now with ⟨old, found, -, same⟩ | ⟨final, same⟩
  · rw [same] at there
    change (j.table.insert id _).get? id = some after at there
    rw [Dict.getInsert, if_pos rfl] at there
    cases there
    cases result <;> cases running
  · rw [same] at there
    have past := final after there
    rw [running] at past
    contradiction

def AtWork (s : Shell) (job : JobId) : Prop := ∃ e ∈ s.tasks, job? e.2 = some job

/- A job that runs afterwards has run before, or has been made with a task of its own. -/
def NewJob (s t : Shell) (job : JobId) : Prop := JobWaiting.Runs s.jobs job ∨ AtWork t job

theorem newCreated {session : SessionId} {line : Text} {now : Nat}
    (jobs : t.jobs = (s.jobs.create session line now).2) (atWork : AtWork t ⟨s.jobs.lastId + 1⟩)
    (runs : JobWaiting.Runs t.jobs job) : NewJob s t job := by
  obtain ⟨after, there, running⟩ := runs
  rw [jobs] at there
  change (s.jobs.table.insert _ _).get? job = some after at there
  rw [Dict.getInsert] at there
  split at there
  · rename_i same
    exact .inr (same ▸ atWork)
  · exact .inl ⟨after, there, running⟩

theorem sortedReachable (h : Reachable s) : s.jobs.table.Sorted := by
  obtain ⟨history, kept, same⟩ := ShellJobs.historyReachable h
  exact same ▸ kept.sorted

theorem killsWork (j : Jobs Echo) (now : Nat) (jobs : List JobId) :
    Works none j (Shell.killEach j now jobs) := by
  induction jobs generalizing j with
  | nil => exact .refl j
  | cons id rest ih => exact (Works.deed (.kill id now) trivial).trans (ih _)

theorem lookedJobs (s : Shell) (id : TaskId) (job : JobId) : (s.look id job).jobs = s.jobs := by
  unfold Shell.look
  split <;> rfl

theorem lineNew {session : SessionId} (sorted : s.jobs.table.Sorted)
    (turn : LineTurn id task session s t) (runs : JobWaiting.Runs t.jobs job) : NewJob s t job := by
  cases turn with
  | noted noted => exact .inl (noted.jobs ▸ runs)
  | @job u t command piped before after =>
    obtain ⟨jobs, ready, started⟩ := OwnRequests.jobStarted u session command piped
    have created := after.jobs.trans (ShellJobs.deedsStart u session command piped)
    have atWork : AtWork t ⟨u.jobs.lastId + 1⟩ := by
      unfold AtWork
      rw [after.tasks, started]
      exact ⟨_, List.mem_append_right _ List.mem_cons_self, rfl⟩
    have new := newCreated created atWork runs
    exact new.imp_left fun ran => before.jobs ▸ ran
  | command before own foreground turn =>
    have works := turn.within.jobs
    rw [before.jobs] at works
    exact .inl (ranBefore works sorted runs)

theorem turnNew (h : Reachable s) (turn : TaskTurn s id task t) (runs : JobWaiting.Runs t.jobs job) :
    NewJob s t job := by
  have sorted := sortedReachable h
  cases turn with
  | waits => exact .inl runs
  | line own foreground turn =>
    exact (lineNew (show (s.withdraw id).jobs.table.Sorted from sorted) turn runs :
      NewJob (s.withdraw id) t job)
  | command own place turn => exact .inl (ranBefore turn.within.jobs sorted runs)
  | @watcher watch same =>
    rw [lookedJobs] at runs
    exact .inl runs

theorem stepNew (h : Reachable s) (step : Step s t) (runs : JobWaiting.Runs t.jobs job) :
    NewJob s t job := by
  have sorted := sortedReachable h
  have clean := (Shell.soundReachable h).toClean
  cases step with
  | resume tie id =>
    cases found : s.tasks.lookup id with
    | none =>
      unfold Shell.resume at runs ⊢
      rw [found] at runs ⊢
      exact .inl runs
    | some task => exact turnNew h (Confinement.resumeTurn (Shell.soundReachable h) found tie) runs
  | closeSession session =>
    obtain ⟨ready, closed⟩ := Shell.closedQuietly clean session
    rw [closed] at runs
    exact .inl (ranBefore (killsWork _ _ _) sorted runs)
  | input session line =>
    rcases Shell.takenIn s session line with ⟨ready, taken⟩ | dispatched
    · rw [taken] at runs
      exact .inl runs
    · rw [dispatched] at runs
      exact .inl runs
  | cancel session =>
    obtain ⟨ready, cancelled⟩ := Shell.cancelledQuietly clean session
    rw [cancelled] at runs
    exact .inl runs
  | createJob session line =>
    have number : (s.createJob session line).1 = ⟨s.jobs.lastId + 1⟩ := by
      obtain ⟨jobs, ready, same⟩ := OwnRequests.jobStarted s session line none
      exact congrArg Prod.fst same
    have listed := Offstage.createdTask s session line
    rw [number] at listed
    exact newCreated (ShellJobs.deedsStart s session line none) ⟨_, listed, rfl⟩ runs
  | killJob id =>
    obtain ⟨ready, killed⟩ := Shell.killedQuietly clean id
    rw [killed] at runs
    exact .inl (ranBefore (.deed (.kill id s.wall) trivial : Works none _ _) sorted runs)
  | clearFinished => exact .inl (ranBefore (.deed .clearFinished trivial : Works none _ _) sorted runs)
  | watchJob id =>
    unfold Shell.watchJob at runs
    rw [lookedJobs] at runs
    exact .inl runs
  | _ => exact .inl runs

inductive Overrun : Shell → JobId → Prop where
  | now {s : Shell} {id : TaskId} {session : SessionId} {job : JobId} {signal : SignalId} {line : Text}
      {piped : Option (List Text)} (tie : Shell.Tie)
      (stands : s.tasks.lookup id = some (.job session job signal line piped))
      (crash : CallsCrash (s.withdraw id) session line) : Overrun (s.resume tie id) job
  | later {s t : Shell} {job : JobId} (before : Overrun s job) (step : Step s t) : Overrun t job

theorem runsPlace (runs : Runs tie s id c run) (stands : s.tasks.lookup id = some task) :
    c.origin.job? = job? task := by
  have same {other} (there : s.tasks.lookup id = some other) : task = other :=
    Option.some.inj (stands.symm.trans there)
  cases runs with
  | called begins read =>
    cases begins with
    | line there | job there => cases same there; rfl
  | program there | waited there => cases same there; rfl

theorem concludeEnds (id : TaskId) (session : SessionId) (signal : SignalId) {outcome : Outcome}
    (recorded : outcome ≠ .crashed) :
    ¬ JobWaiting.Runs (t.conclude id session (.job job signal) outcome).jobs job := by
  cases outcome with
  | ok | failed error => exact settledEnds _ _ _ _
  | crashed => exact absurd rfl recorded

theorem crashedOutcome {name : Text} {ending : Ending} (crashed : ending.outcome name = .crashed) :
    ending = .crashed := by
  unfold Ending.outcome at crashed
  split at crashed <;> first | rfl | contradiction

theorem ownStays (h : Reachable s) (stands : s.tasks.lookup id = some task) (own : job? task = some job)
    (runs : JobWaiting.Runs (s.resume tie id).jobs job) :
    AtWork (s.resume tie id) job ∨ Overrun (s.resume tie id) job := by
  have overrun {session signal line piped}
      (there : s.tasks.lookup id = some (.job session job signal line piped)) :=
    Overrun.now tie there
  have resumed := Shell.resumeResumed tie s id
  generalize s.resume tie id = t at runs resumed overrun ⊢
  have same {other} (there : s.tasks.lookup id = some other) : job? other = some job := by
    cases stands.symm.trans there
    exact own
  cases resumed with
  | absent none => cases stands.symm.trans none
  | stuck there still => exact .inl ⟨_, Shell.lookedUp there, same there⟩
  | watches there | noted there done tasks jobs | starts there done tasks jobs => cases same there
  | refused begins read | wordless begins read =>
    cases begins with
    | line there => cases same there
    | job there =>
      cases same there
      exact absurd runs (concludeEnds _ _ _ nofun)
  | @ran c run ran =>
    have place := (runsPlace ran stands).trans own
    obtain ⟨named, -⟩ := runsEach everyOrderly (Shell.soundReachable h).provided
      (eachReachable everyOrderly h) ran
    have crashes := runsCrashed h ran
    obtain ⟨halt, u⟩ := run
    cases halt with
    | waiting wait | yielded rest => exact .inl ⟨_, List.mem_append_right _ List.mem_cons_self, place⟩
    | ended ending =>
      obtain ⟨session, origin, command⟩ := c
      obtain ⟨name, rfl⟩ := Option.isSome_iff_exists.mp named
      cases origin with
      | foreground scope => cases place
      | job own signal =>
        cases place
        by_cases crashed : ending.outcome name = .crashed
        · obtain ⟨line, piped, u, begins, crash⟩ := crashes (congrArg Halt.ended (crashedOutcome crashed))
          cases begins with
          | job there => exact .inr (overrun there crash)
        · exact absurd runs (concludeEnds id session signal crashed)

theorem stepStays (h : Reachable s) (step : Step s t) (runs : JobWaiting.Runs t.jobs job)
    (atWork : AtWork s job) : AtWork t job ∨ Overrun t job := by
  obtain ⟨e, listed, own⟩ := atWork
  rcases stepJoins step with ⟨tie, id, rfl⟩ | joined
  · by_cases same : e.1 = id
    · exact ownStays h (FiredScopes.taskFound h (same ▸ listed)) own runs
    · exact .inl ⟨e, (tasksAfter tie s id).others e listed same, own⟩
  · exact .inl ⟨e, joined.stay e listed, own⟩

theorem jobsManned (h : Reachable s) : ∀ job, JobWaiting.Runs s.jobs job → AtWork s job ∨ Overrun s job := by
  induction h with
  | start made =>
    obtain ⟨registry, rfl⟩ := Shell.registerElsewhere made
    rintro job ⟨after, there, -⟩
    cases there
  | step before move ih =>
    intro job runs
    rcases stepNew before move runs with ran | atWork
    · rcases ih job ran with atWork | overrun
      · exact stepStays before move runs atWork
      · exact .inr (.later overrun move)
    · exact .inl atWork

theorem dispatchCrashes (provided : Shell.Provided t.registry.commands) {session : SessionId} {line : Text}
    (crash : CallsCrash t session line) (id : TaskId) (origin : Origin) (piped : Option (List Text)) :
    t.dispatch id session origin line piped = t.conclude id session origin .crashed := by
  obtain ⟨call, read, crashing⟩ := crash
  obtain ⟨d, mem, named, handler⟩ := calledDeclared provided read
  have crashes := callsCrash mem ⟨origin.job?, piped⟩ (named ▸ crashing)
  unfold Shell.dispatch
  rw [read]
  dsimp only
  rw [handler, crashes]
  rfl

structure OnlySpans (s : Shell) : Prop where
  ended : ∀ tie id ended, (ended, .crashed) ∉ s.outcomes →
    (ended, .crashed) ∈ (s.resume tie id).outcomes →
    ended = id ∧ ∃ session typed piped, s.tasks.lookup id = some (.line session typed piped) ∧
      CallsCrash (s.opened id session typed).2 session (Text.trim typed)
  typed : ∀ tie id session typed piped, s.tasks.lookup id = some (.line session typed piped) →
    s.assign? session (Text.trim typed) = none → Background.command? (Text.trim typed) = none →
    CallsCrash (s.opened id session typed).2 session (Text.trim typed) →
    (id, .crashed) ∈ (s.resume tie id).outcomes
  asJob : ∀ tie id session job signal line piped,
    s.tasks.lookup id = some (.job session job signal line piped) →
    CallsCrash (s.withdraw id) session line →
    (s.resume tie id).jobs = s.jobs ∧ ∀ e ∈ (s.resume tie id).tasks, e.1 ≠ id
  /- So a job that counts as running has its task, or has lost it in such a crash. -/
  running : ∀ job, JobWaiting.Runs s.jobs job → AtWork s job ∨ Overrun s job

theorem crashEnds {tie : Shell.Tie} {ended : TaskId} (h : Reachable s)
    (fresh : (ended, .crashed) ∉ s.outcomes) (ends : (ended, .crashed) ∈ (s.resume tie id).outcomes) :
    ended = id ∧ ∃ session typed piped, s.tasks.lookup id = some (.line session typed piped) ∧
      CallsCrash (s.opened id session typed).2 session (Text.trim typed) := by
  obtain ⟨rfl, line, -⟩ := Shell.newlyRecorded fresh ends
  refine ⟨rfl, ?_⟩
  generalize s.resume tie ended = t at line
  generalize same : Outcome.crashed = outcome at line
  cases line with
  | done stands => cases same
  | refused stands read turn => cases same
  | @command c run ending name scope runs named place halt turn =>
    rw [crashedOutcome same.symm] at halt
    obtain ⟨line, piped, t, begins, crash⟩ := runsCrashed h runs halt
    rw [place] at begins
    cases begins with
    | line stands => exact ⟨_, _, piped, stands, crash⟩

theorem emptyCalls (t : Shell) (session : SessionId) : t.readCall session [] = .ok none := by
  have nothing : t.expandLine session [] = [] := by
    unfold Shell.expandLine
    split <;> rfl
  unfold Shell.readCall
  rw [nothing]
  rfl

theorem onlySpansCrash (h : Reachable s) : OnlySpans s where
  ended tie id ended fresh ends := crashEnds h fresh ends
  typed tie id session typed piped stands plain foreground crash := by
    have words : Text.trim typed ≠ [] := by
      obtain ⟨call, read, -⟩ := crash
      intro empty
      rw [empty, emptyCalls] at read
      cases read
    have provided := (Shell.keptOpened s id session typed).commands.symm ▸ (Shell.soundReachable h).provided
    rw [Shell.startsCommand tie stands words plain foreground, dispatchCrashes provided crash,
      Shell.concludeRecords]
    exact List.mem_append_right _ List.mem_cons_self
  asJob tie id session job signal line piped stands crash := by
    have provided : Shell.Provided (s.withdraw id).registry.commands := (Shell.soundReachable h).provided
    have turn : s.resume tie id = s.withdraw id := by
      unfold Shell.resume
      rw [stands]
      exact dispatchCrashes provided crash id (.job job signal) piped
    rw [turn]
    exact ⟨rfl, fun e mem => by simpa using (List.mem_filter.mp mem).2⟩
  running := jobsManned h

def oversleeping : Shell := (Offstage.opened.execute ⟨0⟩ "sleep 1e20" none).2

def deserted : Shell := ((Offstage.opened.createJob ⟨0⟩ "sleep 1e20").2).resume .event ⟨0⟩

theorem oversleepingReachable : Reachable oversleeping :=
  Offstage.openedReachable.step (.execute Offstage.opened ⟨0⟩ "sleep 1e20" none)

theorem desertedReachable : Reachable deserted :=
  (Offstage.openedReachable.step (.createJob Offstage.opened ⟨0⟩ "sleep 1e20")).step (.resume _ .event ⟨0⟩)

theorem onlySpansCrashOversleeping :
    Reachable oversleeping ∧ OnlySpans oversleeping ∧ Reachable deserted ∧ OnlySpans deserted ∧
      (∃ session typed piped, oversleeping.tasks.lookup ⟨0⟩ = some (.line session typed piped) ∧
        CallsCrash (oversleeping.opened ⟨0⟩ session typed).2 session (Text.trim typed)) ∧
      Overrun deserted ⟨1⟩ := by
  have awake := onlySpansCrash oversleepingReachable
  have alone := onlySpansCrash desertedReachable
  obtain ⟨-, line⟩ := awake.ended .event ⟨0⟩ ⟨0⟩ (by decide +kernel) (by decide +kernel)
  have status : (deserted.jobs.table.get? ⟨1⟩).map Job.status = some .running := by decide +kernel
  have empty : deserted.tasks.length = 0 := by decide +kernel
  refine ⟨oversleepingReachable, awake, desertedReachable, alone, line, ?_⟩
  rcases alone.running ⟨1⟩ (Option.map_eq_some_iff.mp status) with ⟨e, listed, -⟩ | overrun
  · rw [List.length_eq_zero_iff.mp empty] at listed
    cases listed
  · exact overrun

theorem oversleepingCrashes :
    Reachable oversleeping ∧ (oversleeping.resume .event ⟨0⟩).outcomes = [(⟨0⟩, .crashed)] ∧
      Reachable deserted ∧ deserted.tasks.length = 0 ∧
      (deserted.jobs.get? ⟨1⟩).map JobSnapshot.status = some .running :=
  ⟨oversleepingReachable, by decide +kernel, desertedReachable, by decide +kernel, by decide +kernel⟩

end ConsoleShell.Crashes
