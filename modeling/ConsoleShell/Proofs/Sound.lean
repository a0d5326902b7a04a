import ConsoleShell.Proofs.Captured
import ConsoleShell.Proofs.Frame
import ConsoleShell.Proofs.Reachable

/-! The invariant of every shell that there can be: what it holds of output is harmless, nothing waits
on a signal, and every task that is under way goes on with a tidy program. What commands do in
between is kept apart from what happens to tasks, which no command can touch. -/
namespace ConsoleShell.Shell
open Markup Rendering Printing Captured

def WaitTidy : Wait → Prop
  | .sleep _ stopped next => Tidy stopped ∧ Tidy next
  | .line _ next => ∀ text, Tidy (next text)
  | .answer _ next => ∀ yes, Tidy (next yes)
  | .job _ next => ∀ job, GroupsHarmless job.output → Tidy (next job)
  | .cancel next => Tidy next

def HaltTidy : Halt → Prop
  | .ended _ => True
  | .waiting wait => WaitTidy wait
  | .yielded rest => Tidy rest

def TaskTidy : Task → Prop
  | .program _ program => Tidy program
  | .waiting _ wait => WaitTidy wait
  | .line .. | .job .. | .watcher _ => True

structure Clean (s : Shell) : Prop where
  console : ConsoleHarmless s.console
  jobs : JobsHarmless s.jobs
  scopes : Silent s.scopes.signals
  signals : Silent s.jobs.signals

theorem Clean.same {s t : Shell} (h : Clean s) (console : t.console = s.console)
    (jobs : t.jobs = s.jobs) (scopes : t.scopes = s.scopes) : Clean t :=
  ⟨console.symm ▸ h.console, jobs.symm ▸ h.jobs, scopes.symm ▸ h.scopes, jobs.symm ▸ h.signals⟩

section Actions

variable {s : Shell} (h : Clean s) (c : Invocation)

include h

theorem cleanPrintAt (session : SessionId) (job : Option JobId) (kind : OutputKind) {text : Text}
    (inert : Inert text) : Clean (s.printAt session job kind text).2 := by
  cases job with
  | none => exact ⟨consolePrint h.console session kind inert, h.jobs, h.scopes, h.signals⟩
  | some id =>
    refine ⟨h.console, ?_, h.scopes, ?_⟩
    · exact jobsOutput h.jobs id fun b held => bufferPrint held kind inert
    · exact silentOutput h.signals id _

theorem cleanPrint (kind : OutputKind) {text : Text} (inert : Inert text) :
    Clean (s.print c kind text).2 :=
  cleanPrintAt h c.session c.origin.job? kind inert

theorem cleanUpdate (group : GroupId) {text : Text} (inert : Inert text) :
    Clean (s.update c group text).2 := by
  unfold Shell.update
  split
  · exact ⟨consoleUpdate h.console _ _ inert, h.jobs, h.scopes, h.signals⟩
  · refine ⟨h.console, ?_, h.scopes, ?_⟩
    · exact jobsOutput h.jobs _ fun b held => bufferUpdate held group inert
    · exact silentOutput h.signals _ fun b => b.update group text

theorem cleanDelete (group : GroupId) : Clean (s.delete c group).2 := by
  unfold Shell.delete
  split
  · exact ⟨consoleDelete h.console _ _, h.jobs, h.scopes, h.signals⟩
  · refine ⟨h.console, ?_, h.scopes, ?_⟩
    · exact jobsOutput h.jobs _ fun b held => bufferDelete held group
    · exact silentOutput h.signals _ fun b => b.delete group

theorem cleanClear : Clean (s.clear c) := by
  unfold Shell.clear
  split
  · exact ⟨consoleClear h.console _, h.jobs, h.scopes, h.signals⟩
  · refine ⟨h.console, ?_, h.scopes, ?_⟩
    · exact jobsOutput h.jobs _ fun b _ => bufferClear b
    · exact silentOutput h.signals _ _

theorem cleanReplay {groups : List Group} (harmless : GroupsHarmless groups) :
    Clean (s.replay c groups) := by
  unfold Shell.replay
  split
  · exact ⟨consoleReplay h.console _ harmless, h.jobs, h.scopes, h.signals⟩
  · exact h

theorem cleanBegin (session : SessionId) : Clean (s.beginScope session).2 := by
  unfold Shell.beginScope
  rw [silentBegin h.scopes]
  exact ⟨h.console, h.jobs, (silentReplace h.scopes session).2, h.signals⟩

theorem cleanCancel (session : SessionId) : Clean (s.cancel session).2 := by
  unfold Shell.cancel
  rw [silentCancel h.scopes]
  exact ⟨h.console, h.jobs, (silentInterrupt h.scopes session).2, h.signals⟩

theorem cleanDiscard (session : SessionId) :
    Clean (s.onScopes ((), s.scopes.discard session)).2 := by
  obtain ⟨quiet, silent⟩ := silentDiscard h.scopes session
  unfold Shell.onScopes
  dsimp only
  rw [quiet]
  exact ⟨h.console, h.jobs, silent, h.signals⟩

theorem cleanKill (id : JobId) : Clean (s.killJob id).2 := by
  obtain ⟨quiet, silent⟩ := silentKill h.signals id s.wall
  unfold Shell.killJob
  dsimp only
  rw [quiet]
  exact ⟨h.console, jobsKill h.jobs id s.wall, h.scopes, silent⟩

theorem cleanSettle (id : JobId) (result : JobResult) : Clean (s.settleJob id result) :=
  ⟨h.console, jobsSettle h.jobs id result s.wall, h.scopes,
    silentSettle h.signals id result s.wall⟩

theorem cleanAwaitLine : Clean (s.awaitLine c).2 := by
  unfold Shell.awaitLine
  split
  · exact h
  · split
    · exact h
    · exact h.same rfl rfl rfl

theorem cleanDice (dice : Nat → Nat) : Clean { s with dice } :=
  h.same rfl rfl rfl

theorem cleanRoll (sides : Nat) : Clean (s.roll sides).2 := by
  unfold Shell.roll
  exact cleanDice h _

theorem cleanChange (session : SessionId) (what : Change) : Clean (s.change session what) := by
  cases what with
  | setVariable | unsetVariable | setEnvironment | unsetEnvironment | clearHistory | setAlias
  | removeAlias | setGodMode =>
    exact h.same rfl rfl rfl
  | clearFinishedJobs => exact ⟨h.console, jobsClear h.jobs, h.scopes, h.signals⟩
  | requestExit =>
    change Clean (s.requestExit session)
    unfold Shell.requestExit
    split
    · exact h
    · exact h.same rfl rfl rfl

end Actions

variable {s : Shell} {c : Invocation}

theorem askedClean (h : Clean s) {wait : RequestId → Wait} (tidy : ∀ request, WaitTidy (wait request)) :
    let asked : Halt × Shell := match s.awaitLine c with
      | (.ok request, s) => (.waiting (wait request), s)
      | (.error failure, s) => (.ended (.failed failure), s)
    HaltTidy asked.1 ∧ Clean asked.2 := by
  have asked := cleanAwaitLine h c
  dsimp only
  split
  · rename_i same
    rw [same] at asked
    exact ⟨tidy _, asked⟩
  · rename_i same
    rw [same] at asked
    exact ⟨trivial, asked⟩

/- A tidy program leaves a clean shell behind and goes on tidily. -/
theorem performClean (h : Clean s) {p : Program} (tidy : Tidy p) (left : Nat) :
    HaltTidy (perform c left p s).1 ∧ Clean (perform c left p s).2 := by
  induction p generalizing left s with
  | finish | fail | crash => exact ⟨trivial, h⟩
  | print kind text next ih => exact ih _ (cleanPrint h c kind tidy.1) (tidy.2 _) _
  | update group text next ih => exact ih _ (cleanUpdate h c group tidy.1) (tidy.2 _) _
  | delete group next ih => exact ih _ (cleanDelete h c group) (tidy _) _
  | clear next ih => exact ih (cleanClear h c) tidy _
  | replay groups next ih => exact ih (cleanReplay h c tidy.1) tidy.2 _
  | inspect next ih => exact ih _ h (tidy (s.view c) (jobsListed h.jobs false)) _
  | change what next ih => exact ih (cleanChange h c.session what) tidy _
  | kill job next ih => exact ih _ (cleanKill h job) (tidy _) _
  | roll sides next ih =>
    have rolled := cleanRoll h sides
    unfold perform
    generalize s.roll sides = roll at rolled ⊢
    exact ih _ rolled (tidy _) _
  | onCancel text next ih => exact tidy.elim
  | sleep span stopped next stoppedIh nextIh =>
    unfold perform
    split
    · exact stoppedIh h tidy.1 _
    · split
      · exact ⟨tidy, h⟩
      · split
        · exact nextIh h tidy.2 _
        · exact ⟨tidy, h⟩
  | readLine next ih =>
    unfold perform
    exact askedClean h fun _ => tidy
  | confirm message next ih =>
    have inert : Inert (question message) := inertAppend tidy.1 (by decide)
    unfold perform
    exact askedClean (cleanPrint h c .output inert) fun _ => tidy.2
  | awaitJob job next ih =>
    unfold perform
    split
    · rename_i seen
      exact ih _ h (tidy _ (jobsWatched h.jobs seen)) _
    · exact ⟨trivial, h⟩
    · split
      · exact ⟨trivial, h⟩
      · exact ⟨tidy, h⟩
  | awaitCancel next ih =>
    unfold perform
    split
    · exact ih h tidy _
    · exact ⟨tidy, h⟩

theorem takeLineClean (h : Clean s) (request : RequestId) {next : Text → Shell → Halt × Shell}
    (goes : ∀ text s, Clean s → HaltTidy (next text s).1 ∧ Clean (next text s).2) :
    HaltTidy (takeLine request s next).1 ∧ Clean (takeLine request s next).2 := by
  unfold takeLine
  split
  · exact goes _ _ (h.same rfl rfl rfl)
  · exact ⟨trivial, h.console, h.jobs, h.scopes, h.signals⟩
  · exact ⟨trivial, h.console, h.jobs, h.scopes, h.signals⟩

theorem proceedClean (h : Clean s) {wait : Wait} (tidy : WaitTidy wait) :
    HaltTidy (proceed c s wait).1 ∧ Clean (proceed c s wait).2 := by
  cases wait with
  | sleep due stopped next => exact performClean h tidy.2 _
  | line request next => exact takeLineClean h request fun text s h => performClean h (tidy text) _
  | answer request next =>
    refine takeLineClean h request fun text s h => ?_
    split
    · exact performClean h (tidy true) _
    · exact performClean h (tidy false) _
    · exact askedClean (cleanPrint h c .output (by decide)) fun _ => tidy
  | job watch next =>
    have again : Tidy (.awaitJob watch.job next) := tidy
    exact performClean h again _
  | cancel next => exact performClean h tidy _

theorem abortClean (h : Clean s) {wait : Wait} (tidy : WaitTidy wait) :
    HaltTidy (abort c s wait).1 ∧ Clean (abort c s wait).2 := by
  cases wait with
  | sleep due stopped next => exact performClean h tidy.1 _
  | line request next => exact ⟨trivial, h.console, h.jobs, h.scopes, h.signals⟩
  | answer request next => exact ⟨trivial, h.console, h.jobs, h.scopes, h.signals⟩
  | job watch next => exact ⟨trivial, h⟩
  | cancel next => exact performClean h tidy _

theorem goOnClean (h : Clean s) {wait : Wait} (tidy : WaitTidy wait) (tie : Tie) :
    HaltTidy (goOn tie c wait s).1 ∧ Clean (goOn tie c wait s).2 := by
  unfold goOn
  split
  · exact proceedClean h tidy
  · exact proceedClean h tidy
  · exact abortClean h tidy
  · exact abortClean h tidy
  · exact ⟨tidy, h⟩

/- The invariant. Tasks, and what is recorded of them, have numbers that were handed out; nothing is
recorded of a task that is under way. -/
structure Sound (s : Shell) : Prop extends Clean s where
  provided : Provided s.registry.commands
  tidy : ∀ entry ∈ s.tasks, TaskTidy entry.2
  numbered : ∀ entry ∈ s.tasks, entry.1.number < s.taskCount
  recorded : ∀ entry ∈ s.outcomes, entry.1.number < s.taskCount
  unsettled : ∀ entry ∈ s.tasks, ∀ ended ∈ s.outcomes, ended.1 ≠ entry.1
  buffers : ∀ session, s.isOpen session → s.console.buffers.contains session

structure InTurn (s : Shell) (id : TaskId) : Prop where
  known : id.number < s.taskCount
  taken : ∀ entry ∈ s.tasks, entry.1 ≠ id
  unsettled : ∀ ended ∈ s.outcomes, ended.1 ≠ id

theorem InTurn.kept {t : Shell} {id : TaskId} (turn : InTurn s id) (kept : Kept s t) :
    InTurn t id where
  known := kept.taskCount.symm ▸ turn.known
  taken := kept.tasks.symm ▸ turn.taken
  unsettled := kept.outcomes.symm ▸ turn.unsettled

theorem soundKept {t : Shell} (h : Sound s) (kept : Kept s t) (clean : Clean t) : Sound t where
  toClean := clean
  provided := kept.commands.symm ▸ h.provided
  tidy := kept.tasks.symm ▸ h.tidy
  numbered := kept.tasks.symm ▸ kept.taskCount.symm ▸ h.numbered
  recorded := kept.outcomes.symm ▸ kept.taskCount.symm ▸ h.recorded
  unsettled := kept.tasks.symm ▸ kept.outcomes.symm ▸ h.unsettled
  buffers session isOpen := by
    rw [kept.buffers session]
    exact h.buffers session (kept.opened session ▸ isOpen)

section Tasks

variable (h : Sound s) {id : TaskId} {task : Task}

include h

theorem soundSuspend (turn : InTurn s id) (tidy : TaskTidy task) : Sound (s.suspend id task) where
  toClean := h.toClean.same rfl rfl rfl
  provided := h.provided
  tidy := eachAdded h.tidy tidy
  numbered := eachAdded h.numbered turn.known
  recorded := h.recorded
  unsettled := eachAdded h.unsettled turn.unsettled
  buffers := h.buffers

theorem soundAside (turn : InTurn s id) (tidy : TaskTidy task) : Sound (s.setAside id task) :=
  have held := soundSuspend h turn tidy
  { held with toClean := held.toClean.same rfl rfl rfl }

theorem soundRecord (turn : InTurn s id) (outcome : Outcome) :
    Sound (s.recordOutcome id outcome) where
  toClean := h.toClean.same rfl rfl rfl
  provided := h.provided
  tidy := h.tidy
  numbered := h.numbered
  recorded := eachAdded h.recorded turn.known
  unsettled entry listed := eachAdded (h.unsettled entry listed) (turn.taken entry listed).symm
  buffers := h.buffers

theorem soundWithdraw (id : TaskId) : Sound (s.withdraw id) where
  toClean := h.toClean.same rfl rfl rfl
  provided := h.provided
  tidy entry mem := h.tidy entry (List.mem_filter.mp mem).1
  numbered entry mem := h.numbered entry (List.mem_filter.mp mem).1
  recorded := h.recorded
  unsettled entry mem := h.unsettled entry (List.mem_filter.mp mem).1
  buffers := h.buffers

theorem turnWithdrawn (listed : (id, task) ∈ s.tasks) : InTurn (s.withdraw id) id where
  known := h.numbered _ listed
  taken entry mem := by simpa using (List.mem_filter.mp mem).2
  unsettled := h.unsettled _ listed

theorem soundNew : Sound s.newTask.2 where
  toClean := h.toClean.same rfl rfl rfl
  provided := h.provided
  tidy := h.tidy
  numbered entry mem := Nat.lt_succ_of_lt (h.numbered entry mem)
  recorded entry mem := Nat.lt_succ_of_lt (h.recorded entry mem)
  unsettled := h.unsettled
  buffers := h.buffers

theorem turnNew : InTurn s.newTask.2 s.newTask.1 where
  known := Nat.lt_succ_self _
  taken entry mem same := absurd (h.numbered entry mem) (by simp [same, Shell.newTask])
  unsettled ended mem same := absurd (h.recorded ended mem) (by simp [same, Shell.newTask])

theorem soundSpawn (tidy : TaskTidy task) : Sound (s.spawn task).2 :=
  have held := soundSuspend (soundNew h) (turnNew h) tidy
  { held with toClean := held.toClean.same rfl rfl rfl }

omit h in
theorem turnSpawned (turn : InTurn s id) (task : Task) : InTurn (s.spawn task).2 id where
  known := Nat.lt_succ_of_lt turn.known
  taken := by
    refine eachAdded turn.taken ?_
    rintro rfl
    exact Nat.lt_irrefl _ turn.known
  unsettled := turn.unsettled

theorem soundLook (turn : InTurn s id) (job : JobId) : Sound (s.look id job) := by
  unfold Shell.look
  split
  · exact soundSuspend h turn trivial
  · exact { h with toClean := h.toClean.same rfl rfl rfl }

end Tasks

theorem cleanFinish (h : Clean s) (session : SessionId) (scope : Scope) :
    Clean (s.finishScope session scope) := by
  refine ⟨h.console, h.jobs, ?_, h.signals⟩
  unfold Shell.finishScope Scopes.finish
  dsimp only
  split
  · exact h.scopes
  · exact h.scopes

theorem soundFinish (h : Sound s) (session : SessionId) (scope : Scope) :
    Sound (s.finishScope session scope) :=
  soundKept h (keptScopes s _) (cleanFinish h.toClean session scope)

theorem soundSettle (h : Sound s) (id : JobId) (result : JobResult) : Sound (s.settleJob id result) :=
  soundKept h (keptSettle s id result) (cleanSettle h.toClean id result)

theorem soundPrint (h : Sound s) (session : SessionId) (job : Option JobId) (kind : OutputKind)
    {text : Text} (inert : Inert text) : Sound (s.printAt session job kind text).2 :=
  soundKept h (keptPrintAt s session job kind text) (cleanPrintAt h.toClean session job kind inert)

theorem soundConclude (h : Sound s) {task : TaskId} (turn : InTurn s task)
    (session : SessionId) (origin : Origin) (outcome : Outcome) :
    Sound (s.conclude task session origin outcome) := by
  unfold Shell.conclude
  split
  · dsimp only
    split
    · rename_i error
      have told := soundPrint h session none .error (inertEscape error.message)
      have kept := keptPrintAt s session none .error (escape error.message)
      exact soundRecord (soundFinish told _ _) ((turn.kept kept).kept (keptScopes _ _)) _
    · exact soundRecord (soundFinish h _ _) (turn.kept (keptScopes _ _)) _
  · split
    · exact soundSettle h _ _
    · exact h

theorem soundLeave {task : TaskId} {run : Halt × Shell} (h : Sound run.2) (halt : HaltTidy run.1)
    (turn : InTurn run.2 task) : Sound (leave task c run) := by
  obtain ⟨halted, t⟩ := run
  unfold leave
  cases halted with
  | waiting wait => exact soundSuspend h turn halt
  | yielded rest => exact soundAside h turn halt
  | ended ending =>
    dsimp only
    split
    · exact soundConclude h turn _ _ _
    · split
      · exact soundSettle h _ _
      · exact h
    · exact soundFinish h _ _

theorem soundRun (h : Sound s) {task : TaskId} {run : Halt × Shell} (kept : Kept s run.2)
    (clean : HaltTidy run.1 ∧ Clean run.2) (turn : InTurn s task) : Sound (leave task c run) :=
  soundLeave (soundKept h kept clean.2) clean.1 (turn.kept kept)

theorem calledKnown {session : SessionId} {line : Text} {call : Call}
    (read : s.readCall session line = .ok (some call)) :
    ∃ name words, s.registry.commands.get? name = some call.command ∧
      call.command.parse words = .ok call.arguments := by
  unfold Shell.readCall at read
  obtain ⟨typed, -, read⟩ := bindOk.mp read
  split at read
  · cases read
  · rename_i name words
    dsimp only at read
    split at read
    · rename_i command found
      obtain ⟨arguments, parsed, same⟩ := bindOk.mp read
      cases same
      exact ⟨_, _, found, mapErrorOk.mp parsed⟩
    · cases read

theorem soundDispatch (h : Sound s) {task : TaskId} (turn : InTurn s task)
    (session : SessionId) (origin : Origin) (line : Text) (piped : Option (List Text)) :
    Sound (s.dispatch task session origin line piped) := by
  unfold Shell.dispatch
  split
  · exact soundConclude h turn _ _ _
  · exact soundConclude h turn _ _ _
  · rename_i call read
    obtain ⟨name, words, found, parsed⟩ := calledKnown read
    obtain ⟨d, listed, built⟩ := Dict.everyFound h.provided.only found
    have tidy := calledTidy listed built parsed ⟨origin.job?, piped⟩
    exact soundRun h (keptPerform s _ _ _) (performClean h.toClean tidy _) turn

theorem soundStartJob (h : Sound s) (session : SessionId) (line : Text)
    (piped : Option (List Text)) : Sound (s.startJob session line piped).2 := by
  have created : Sound { s with jobs := (s.jobs.create session line s.wall).2 } :=
    soundKept h (keptJobs s _)
      ⟨h.console, jobsCreate h.jobs session line s.wall, h.scopes, silentCreate h.signals⟩
  unfold Shell.startJob
  dsimp only
  split
  · exact created
  · exact soundSpawn created trivial

theorem turnStarted {task : TaskId} (turn : InTurn s task) (session : SessionId) (line : Text)
    (piped : Option (List Text)) : InTurn (s.startJob session line piped).2 task := by
  have created := turn.kept (keptJobs s (s.jobs.create session line s.wall).2)
  unfold Shell.startJob
  dsimp only
  split
  · exact created
  · exact turnSpawned created _

theorem soundSession (h : Sound s) (session : SessionId) (change : Session → Session) :
    Sound (s.onSession session change) :=
  soundKept h (keptSession s session change) (h.toClean.same rfl rfl rfl)

theorem soundStartLine (h : Sound s) {task : TaskId} (turn : InTurn s task)
    (session : SessionId) (typed : Text) (piped : Option (List Text)) :
    Sound (s.startLine task session typed piped) := by
  unfold Shell.startLine
  dsimp only
  split
  · exact soundRecord h turn .ok
  have remembered : Sound (s.remember session (Text.trim typed)) := soundSession h session _
  have still : InTurn (s.remember session (Text.trim typed)) task := turn.kept (keptSession s _ _)
  generalize s.remember session (Text.trim typed) = t at remembered still
  split
  · rename_i assignment assigned made
    obtain ⟨data, -, made⟩ := Option.bind_eq_some_iff.mp made
    obtain ⟨⟨_, store⟩, -, same⟩ := Option.bind_eq_some_iff.mp made
    cases same
    have stored : Sound (t.onStore session fun _ => store) := soundSession remembered session _
    have kept := (keptSession t session _).trans
      (keptPrintAt (t.onStore session fun _ => store) session none .output
        (escape assignment.report))
    have told := soundPrint stored session none .output (inertEscape assignment.report)
    exact soundRecord told (still.kept kept) .ok
  · split
    · rename_i command _
      have started := soundStartJob remembered session command piped
      have waits := turnStarted still session command piped
      have report (id : JobId) : Inert ('[' :: id.display ++ "] started") := by
        simp [JobId.display]
      generalize t.startJob session command piped = next at started waits
      have told := soundPrint started session none .output (report next.1)
      exact soundRecord told (waits.kept (keptPrintAt next.2 session none .output _)) .ok
    · have begun := soundKept remembered (keptOnScopes t _) (cleanBegin remembered.toClean session)
      exact soundDispatch begun (still.kept (keptOnScopes t _)) _ _ _ _

theorem lookedUp {tasks : List (TaskId × Task)} {id : TaskId} {task : Task}
    (found : tasks.lookup id = some task) : (id, task) ∈ tasks := by
  obtain ⟨before, after, same, -⟩ := List.lookup_eq_some_iff.mp found
  simp [same]

theorem soundResume (h : Sound s) (tie : Tie) (id : TaskId) : Sound (s.resume tie id) := by
  unfold Shell.resume
  split
  · exact soundWithdraw h id
  rename_i task found
  have listed := lookedUp found
  have turn := turnWithdrawn h listed
  have tidy : TaskTidy task := h.tidy _ listed
  split
  · have rest := soundWithdraw h id
    dsimp only
    split
    · exact soundStartLine rest turn _ _ _
    · exact soundDispatch rest turn _ _ _ _
    · exact soundRun rest (keptPerform _ _ _ _) (performClean rest.toClean tidy _) turn
    · exact soundRun rest (keptGoOn _ _ _ _) (goOnClean rest.toClean tidy tie) turn
    · exact soundLook rest turn _
  · exact { h with toClean := h.toClean.same rfl rfl rfl }

theorem soundOpen (h : Sound s) : Sound s.openSession.2 := by
  refine ⟨⟨consoleOpen h.console _, h.jobs, h.scopes, h.signals⟩, h.provided, h.tidy, h.numbered,
    h.recorded, h.unsettled, fun session isOpen => ?_⟩
  unfold Shell.openSession Shell.isOpen at isOpen
  unfold Shell.openSession Console.open
  simp only [Dict.containsInsert, Bool.or_eq_true, decide_eq_true_eq] at isOpen
  dsimp only
  split
  · rename_i there
    rcases isOpen with rfl | before
    · exact there
    · exact h.buffers session before
  · unfold Console.setBuffer
    rw [Dict.containsInsert]
    rcases isOpen with same | before
    · simp [same]
    · simp [h.buffers session before]

theorem soundKillAll (h : Sound s) (jobs : List JobId) :
    Sound (jobs.foldl (fun s id => (s.killJob id).2) s) := by
  induction jobs generalizing s with
  | nil => exact h
  | cons id rest ih => exact ih (soundKept h (keptKill s id) (cleanKill h.toClean id))

theorem soundRequests (h : Sound s) (requests : Requests) : Sound { s with requests } :=
  soundKept h (keptRequests s requests) (h.toClean.same rfl rfl rfl)

theorem soundWake (h : Sound s) : Sound s.wake :=
  soundKept h (keptWake s) (h.toClean.same rfl rfl rfl)

theorem soundForget (h : Sound s) (session : SessionId) (exits : List SessionId) :
    Sound { s with
      sessions := s.sessions.erase session, console := s.console.close session, exits } := by
  refine ⟨⟨consoleClose h.console session, h.jobs, h.scopes, h.signals⟩, h.provided, h.tidy,
    h.numbered, h.recorded, h.unsettled, fun other isOpen => ?_⟩
  unfold Shell.isOpen at isOpen
  unfold Console.close
  simp only [Dict.containsErase, Bool.and_eq_true] at isOpen ⊢
  exact ⟨isOpen.1, h.buffers other isOpen.2⟩

theorem soundClose (h : Sound s) (session : SessionId) : Sound (s.closeSession session) := by
  have stopped := soundKept h (keptOnScopes s _) (cleanDiscard h.toClean session)
  exact soundForget (soundKillAll (soundWake (soundRequests stopped _)) _) session _

theorem soundStep {t : Shell} (h : Sound s) (move : Step s t) : Sound t := by
  cases move with
  | openSession => exact soundOpen h
  | closeSession session => exact soundClose h session
  | input session line =>
    have delivered := soundRequests h (s.requests.deliver session line).2
    unfold Shell.handleInput
    dsimp only
    split
    · exact soundWake delivered
    · exact soundSpawn delivered trivial
  | execute => exact soundSpawn h trivial
  | cancel session => exact soundKept h (keptOnScopes s _) (cleanCancel h.toClean session)
  | createJob session line => exact soundStartJob h session line none
  | killJob id => exact soundKept h (keptKill s id) (cleanKill h.toClean id)
  | clearFinished =>
    exact soundKept h (keptJobs s _) ⟨h.console, jobsClear h.jobs, h.scopes, h.signals⟩
  | watchJob id => exact soundLook (soundNew h) (turnNew h) id
  | resume tie id => exact soundResume h tie id
  | setStore session store => exact soundSession h session _
  | takeExit session => exact { h with toClean := h.toClean.same rfl rfl rfl }
  | resetState => exact { h with toClean := h.toClean.same rfl rfl rfl }
  | pass => exact { h with toClean := h.toClean.same rfl rfl rfl }
  | schedule => exact { h with toClean := h.toClean.same rfl rfl rfl }
  | setAliases => exact { h with toClean := h.toClean.same rfl rfl rfl }
  | subscribe => exact { h with toClean := ⟨h.console, h.jobs, h.scopes, h.signals⟩ }
  | takeEvents => exact { h with toClean := ⟨h.console, h.jobs, h.scopes, h.signals⟩ }

theorem soundStart {config : Config} (made : ofDeclarations config Builtin.all = .ok s) :
    Sound s := by
  obtain ⟨registry, rfl⟩ := registerElsewhere made
  exact {
    console := Dict.everyEmpty
    jobs := Dict.everyEmpty
    scopes := fun _ mem => nomatch mem
    signals := fun _ mem => nomatch mem
    provided := provided made
    tidy := fun _ mem => nomatch mem
    numbered := fun _ mem => nomatch mem
    recorded := fun _ mem => nomatch mem
    unsettled := fun _ mem => nomatch mem
    buffers := fun _ isOpen => nomatch isOpen }

theorem soundReachable (h : Reachable s) : Sound s := by
  induction h with
  | start made => exact soundStart made
  | step _ move ih => exact soundStep ih move

end ConsoleShell.Shell
