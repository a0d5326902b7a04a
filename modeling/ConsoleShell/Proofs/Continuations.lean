import ConsoleShell.Proofs.Actions
import ConsoleShell.Proofs.LineEnds

/-! What commands go on with. A command that waits or stands aside keeps a program of its own for later, and
that is what is left of the program that its line called for. So what holds of every action of the
commands there are holds of everything that a shell has under way. -/
namespace ConsoleShell.Actions
open Shell (Reachable Step Runs Resumed)
open Confinement (remains confinedConclude left)

def WaitEach (P : Program → Prop) : Wait → Prop
  | .sleep _ stopped next => ∃ span, Each P (.sleep span stopped next)
  | .line _ next => Each P (.readLine next)
  | .answer _ next => ∃ message, Each P (.confirm message next)
  | .job watch next => Each P (.awaitJob watch.job next)
  | .cancel next => Each P (.awaitCancel next)

def Sleeps (p : Program) : Prop := ∃ span stopped next, p = .sleep span stopped next

def HaltEach (P : Program → Prop) : Halt → Prop
  | .ended ending => ending = .crashed → P .crash
  | .waiting wait => WaitEach P wait
  | .yielded rest => Sleeps rest ∧ Each P rest

def TaskEach (P : Program → Prop) : Shell.Task → Prop
  | .program c program => c.command.isSome = true ∧ Sleeps program ∧ Each P program
  | .waiting c wait => c.command.isSome = true ∧ WaitEach P wait
  | .line .. | .job .. | .watcher _ => True

variable {P Q : Program → Prop} {s t : Shell} {c : Invocation} {p : Program}

theorem waitMono {wait : Wait} (each : WaitEach P wait) (implies : ∀ p, P p → Q p) : WaitEach Q wait := by
  cases wait with
  | sleep due stopped next =>
    obtain ⟨span, each⟩ := each
    exact ⟨span, each.mono implies⟩
  | answer request next =>
    obtain ⟨message, each⟩ := each
    exact ⟨message, each.mono implies⟩
  | line | job | cancel => exact Each.mono each implies

theorem haltFinished : HaltEach P (.ended .finished) := by
  intro crashed
  cases crashed

theorem haltFailed (failure : Failure) : HaltEach P (.ended (.failed failure)) := by
  intro crashed
  cases crashed

theorem haltAsked {wait : RequestId → Wait} (each : ∀ request, WaitEach P (wait request)) :
    let asked : Halt × Shell := match s.awaitLine c with
      | (.ok request, s) => (.waiting (wait request), s)
      | (.error failure, s) => (.ended (.failed failure), s)
    HaltEach P asked.1 := by
  dsimp only
  split
  · exact each _
  · exact haltFailed _

theorem haltPerform (each : Each P p) (left : Nat) : HaltEach P (Shell.perform c left p s).1 := by
  induction p generalizing left s with
  | finish => exact haltFinished
  | fail failure => exact haltFailed failure
  | crash => exact fun _ => each
  | print kind text next ih | update group text next ih | delete group next ih | inspect next ih
  | kill job next ih =>
    exact ih _ (each.2 _) _
  | clear next ih | replay groups next ih | change what next ih | onCancel text next ih =>
    exact ih each.2 _
  | roll sides next ih =>
    unfold Shell.perform
    generalize s.roll sides = roll
    exact ih _ (each.2 _) _
  | sleep span stopped next stoppedIh nextIh =>
    unfold Shell.perform
    split
    · exact stoppedIh each.2.1 _
    · split
      · exact ⟨⟨_, _, _, rfl⟩, each⟩
      · split
        · exact nextIh each.2.2 _
        · exact ⟨span, each⟩
  | readLine next ih =>
    unfold Shell.perform
    exact haltAsked fun _ => each
  | confirm message next ih =>
    unfold Shell.perform
    exact haltAsked fun _ => ⟨message, each⟩
  | awaitJob job next ih =>
    unfold Shell.perform
    split
    · exact ih _ (each.2 _) _
    · exact haltFailed _
    · rename_i watch looked
      split
      · exact haltFailed _
      · have same : (⟨job, s.jobs.notices⟩ : Watch) = watch := congrArg Prod.snd looked
        cases same
        exact each
  | awaitCancel next ih =>
    unfold Shell.perform
    split
    · exact ih each.2 _
    · exact each

theorem haltTaken (request : RequestId) {next : Text → Shell → Halt × Shell}
    (goes : ∀ text s, HaltEach P (next text s).1) : HaltEach P (Shell.takeLine request s next).1 := by
  unfold Shell.takeLine
  split
  · exact goes _ _
  · exact haltFailed _
  · exact haltFailed _

theorem haltProceed {wait : Wait} (each : WaitEach P wait) : HaltEach P (Shell.proceed c s wait).1 := by
  cases wait with
  | sleep due stopped next =>
    obtain ⟨span, each⟩ := each
    exact haltPerform each.2.2 _
  | line request next => exact haltTaken request fun text s => haltPerform (each.2 text) _
  | answer request next =>
    obtain ⟨message, each⟩ := each
    refine haltTaken request fun text s => ?_
    split
    · exact haltPerform (each.2 true) _
    · exact haltPerform (each.2 false) _
    · exact haltAsked fun _ => ⟨message, each⟩
  | job watch next => exact haltPerform each _
  | cancel next => exact haltPerform each.2 _

theorem haltAbort {wait : Wait} (each : WaitEach P wait) : HaltEach P (Shell.abort c s wait).1 := by
  cases wait with
  | sleep due stopped next =>
    obtain ⟨span, each⟩ := each
    exact haltPerform each.2.1 _
  | line request next | answer request next | job watch next => exact haltFailed _
  | cancel next => exact haltPerform each.2 _

theorem haltGoOn {wait : Wait} (each : WaitEach P wait) (tie : Shell.Tie) :
    HaltEach P (Shell.goOn tie c wait s).1 := by
  unfold Shell.goOn
  split
  · exact haltProceed each
  · exact haltProceed each
  · exact haltAbort each
  · exact haltAbort each
  · exact each

variable {tie : Shell.Tie} {id : TaskId} {run : Halt × Shell}

theorem calledDeclared (provided : Shell.Provided s.registry.commands) {session : SessionId} {line : Text}
    {call : Call} (read : s.readCall session line = .ok (some call)) :
    ∃ d ∈ Builtin.all, call.command.name = d.name ∧ call.command.handler = d.handler := by
  obtain ⟨name, words, listed, -⟩ := Shell.calledKnown read
  obtain ⟨d, mem, built⟩ := Dict.everyFound provided.only listed
  exact ⟨d, mem, Arguments.builtAs built⟩

theorem calledEvery (every : Every P) (provided : Shell.Provided s.registry.commands) {session : SessionId}
    {line : Text} {call : Call} (read : s.readCall session line = .ok (some call)) (caller : Caller) :
    Called P (call.command.handler call.arguments caller) := by
  obtain ⟨d, mem, -, handler⟩ := calledDeclared provided read
  rw [handler]
  exact every d mem _ _

theorem runsEach (every : Every P) (provided : Shell.Provided s.registry.commands)
    (tasks : ∀ e ∈ s.tasks, TaskEach P e.2) (runs : Runs tie s id c run) :
    c.command.isSome = true ∧ (run.1 = .ended .crashed ∨ HaltEach P run.1) := by
  cases runs with
  | called begins read =>
    refine ⟨rfl, ?_⟩
    rcases calledEvery every (begins.kept.commands.symm ▸ provided) read _ with crash | each
    · rw [crash]
      exact .inl rfl
    · exact .inr (haltPerform each _)
  | program stands =>
    obtain ⟨named, -, each⟩ := tasks _ (Shell.lookedUp stands)
    exact ⟨named, .inr (haltPerform each _)⟩
  | waited stands =>
    obtain ⟨named, each⟩ := tasks _ (Shell.lookedUp stands)
    exact ⟨named, .inr (haltGoOn each tie)⟩

theorem remainsEach (named : c.command.isSome = true) (each : run.1 = .ended .crashed ∨ HaltEach P run.1) :
    ∀ e ∈ remains id c run.1, TaskEach P e.2 := by
  intro e mem
  unfold remains at mem
  split at mem
  · rename_i wait halt
    cases List.mem_singleton.mp mem
    rw [halt] at each
    exact ⟨named, each.resolve_left (by simp)⟩
  · rename_i rest halt
    cases List.mem_singleton.mp mem
    rw [halt] at each
    exact ⟨named, each.resolve_left (by simp)⟩
  · contradiction

/- Tasks that have not begun. That of a job that has just been made has the job's number and signal. -/
def Fresh (jobs : Jobs Echo) : Shell.Task → Prop
  | .line .. | .watcher _ => True
  | .job _ id signal _ _ => id = ⟨jobs.lastId + 1⟩ ∧ signal = jobs.signals.create.1
  | .program .. | .waiting .. => False

theorem freshEach {jobs : Jobs Echo} {task : Shell.Task} (fresh : Fresh jobs task) : TaskEach P task := by
  cases task with
  | line | job | watcher => trivial
  | program | waiting => exact fresh.elim

theorem lookedTasks (s : Shell) (id : TaskId) (job : JobId) :
    (s.look id job).tasks = s.tasks ∨ ∃ watch, (s.look id job).tasks = s.tasks ++ [(id, .watcher watch)] := by
  unfold Shell.look
  split
  · exact .inr ⟨_, rfl⟩
  · exact .inl rfl

structure TasksAfter (tie : Shell.Tie) (s : Shell) (id : TaskId) (t : Shell) : Prop where
  others : ∀ e ∈ s.tasks, e.1 ≠ id → e ∈ t.tasks
  origins : ∀ e ∈ t.tasks, e ∈ s.tasks ∨ Fresh s.jobs e.2 ∨
    ∃ c run, Runs tie s id c run ∧ t = Shell.leave id c run ∧ e ∈ remains id c run.1

theorem withdrawnOthers {e : TaskId × Shell.Task} (mem : e ∈ s.tasks) (apart : e.1 ≠ id) :
    e ∈ (s.withdraw id).tasks :=
  List.mem_filter.mpr ⟨mem, by simp [apart]⟩

theorem tasksAfter (tie : Shell.Tie) (s : Shell) (id : TaskId) :
    TasksAfter tie s id (s.resume tie id) := by
  have resumed := Shell.resumeResumed tie s id
  generalize s.resume tie id = t at resumed
  -- Where only the task itself goes, and at most one joins that has not begun.
  have joined {later : List (TaskId × Shell.Task)} (tasks : t.tasks = (s.withdraw id).tasks ++ later)
      (fresh : ∀ e ∈ later, Fresh s.jobs e.2) : TasksAfter tie s id t := by
    refine ⟨fun e mem apart => ?_, fun e mem => ?_⟩
    · exact tasks ▸ List.mem_append_left _ (withdrawnOthers mem apart)
    · rcases List.mem_append.mp (tasks ▸ mem) with old | new
      · exact .inl (List.mem_filter.mp old).1
      · exact .inr (.inl (fresh e new))
  have taken (tasks : t.tasks = (s.withdraw id).tasks) : TasksAfter tie s id t :=
    joined (tasks.trans (List.append_nil _).symm) fun _ mem => nomatch mem
  cases resumed with
  | absent none => exact taken rfl
  | stuck stands still => exact ⟨fun _ mem _ => mem, fun _ mem => .inl mem⟩
  | @watches watch stands =>
    rcases lookedTasks (s.withdraw id) id watch.job with tasks | ⟨later, tasks⟩
    · exact taken tasks
    · exact joined tasks fun e mem => List.mem_singleton.mp mem ▸ trivial
  | noted stands done tasks jobs => exact taken tasks
  | starts stands done tasks jobs =>
    refine joined tasks fun e mem => ?_
    cases List.mem_singleton.mp mem
    exact ⟨rfl, rfl⟩
  | @refused session origin line piped u error begins read =>
    have concluded := confinedConclude (c := ⟨session, origin, none⟩) u id (.failed error)
    exact taken (concluded.tasks.trans begins.kept.tasks)
  | @wordless session origin line piped u begins read =>
    have concluded := confinedConclude (c := ⟨session, origin, none⟩) u id .ok
    exact taken (concluded.tasks.trans begins.kept.tasks)
  | @ran c run runs =>
    have tasks := (left id (c := c) run).tasks
    rw [runs.kept.tasks] at tasks
    refine ⟨fun e mem apart => ?_, fun e mem => ?_⟩
    · exact tasks ▸ List.mem_append_left _ (withdrawnOthers mem apart)
    · rcases List.mem_append.mp (tasks ▸ mem) with old | remains
      · exact .inl (List.mem_filter.mp old).1
      · exact .inr (.inr ⟨c, run, runs, rfl, remains⟩)

structure Joined (s t : Shell) : Prop where
  stay : ∀ e ∈ s.tasks, e ∈ t.tasks
  origins : ∀ e ∈ t.tasks, e ∈ s.tasks ∨ Fresh s.jobs e.2

theorem joinedSame (tasks : t.tasks = s.tasks) : Joined s t :=
  ⟨fun _ mem => tasks ▸ mem, fun _ mem => .inl (tasks ▸ mem)⟩

theorem joinedOne {e : TaskId × Shell.Task} (tasks : t.tasks = s.tasks ++ [e]) (fresh : Fresh s.jobs e.2) :
    Joined s t := by
  refine ⟨fun _ mem => tasks ▸ List.mem_append_left _ mem, fun other mem => ?_⟩
  rcases List.mem_append.mp (tasks ▸ mem) with old | new
  · exact .inl old
  · exact .inr (List.mem_singleton.mp new ▸ fresh)

theorem killedTasks (s : Shell) (jobs : List JobId) :
    (jobs.foldl (fun s id => (s.killJob id).2) s).tasks = s.tasks := by
  induction jobs generalizing s with
  | nil => rfl
  | cons id rest ih => exact (ih _).trans (Shell.keptKill s id).tasks

theorem stepJoins (step : Step s t) : (∃ tie id, t = s.resume tie id) ∨ Joined s t := by
  cases step with
  | resume tie id => exact .inl ⟨tie, id, rfl⟩
  | closeSession session =>
    have stopped := Shell.keptOnScopes s ((), s.scopes.discard session)
    unfold Shell.closeSession Shell.killJobsOf
    dsimp only
    generalize (s.onScopes ((), s.scopes.discard session)).2 = u at stopped
    exact .inr (joinedSame ((killedTasks _ _).trans stopped.tasks))
  | input session line =>
    rcases Shell.takenIn s session line with ⟨ready, taken⟩ | dispatched
    · exact .inr (joinedSame (by rw [taken]))
    · rw [dispatched]
      exact .inr (joinedOne rfl trivial)
  | cancel session => exact .inr (joinedSame (Shell.keptOnScopes s _).tasks)
  | createJob session line =>
    obtain ⟨jobs, ready, same⟩ := OwnRequests.jobStarted s session line .none
    unfold Shell.createJob
    rw [same]
    exact .inr (joinedOne rfl ⟨rfl, rfl⟩)
  | killJob id => exact .inr (joinedSame (Shell.keptKill s id).tasks)
  | watchJob id =>
    rcases lookedTasks s.newTask.2 s.newTask.1 id with tasks | ⟨watch, tasks⟩
    · exact .inr (joinedSame tasks)
    · exact .inr (joinedOne tasks trivial)
  | execute session line piped => exact .inr (joinedOne rfl trivial)
  | _ => exact .inr (joinedSame rfl)

theorem eachReachable (every : Every P) (h : Reachable s) : ∀ e ∈ s.tasks, TaskEach P e.2 := by
  induction h with
  | start made =>
    obtain ⟨registry, rfl⟩ := Shell.registerElsewhere made
    exact fun _ mem => nomatch mem
  | @step s t before move ih =>
    have provided := (Shell.soundReachable before).provided
    rcases stepJoins move with ⟨tie, id, rfl⟩ | joined
    · intro e mem
      rcases (tasksAfter tie s id).origins e mem with old | fresh | ⟨c, run, runs, -, remains⟩
      · exact ih e old
      · exact freshEach fresh
      · obtain ⟨named, each⟩ := runsEach every provided ih runs
        exact remainsEach named each e remains
    · exact fun e mem => (joined.origins e mem).elim (ih e) freshEach

end ConsoleShell.Actions
