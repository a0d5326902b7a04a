import ConsoleShell.Proofs.Dict
import ConsoleShell.Shell.Control

/-! What a command leaves alone while it runs. Whatever it prints, changes or waits for, the tasks and
what is recorded of them stay as they are, the commands stay the same, and no session is opened or
closed. -/
namespace ConsoleShell.Shell

def SameBuffers (before after : Console) : Prop :=
  ∀ session, after.buffers.contains session = before.buffers.contains session

@[refl] theorem SameBuffers.refl (c : Console) : SameBuffers c c := fun _ => rfl

theorem buffersSet {c : Console} {session : SessionId} {old : Buffer}
    (found : c.buffer? session = some old) (new : Buffer) :
    SameBuffers c (c.setBuffer session new) := by
  intro other
  have there : c.buffers.contains session = true := by
    unfold Dict.contains
    unfold Console.buffer? at found
    rw [found]
    rfl
  unfold Console.setBuffer
  rw [Dict.containsInsert]
  by_cases same : other = session <;> simp [same, there]

theorem buffersPush (c : Console) (session : SessionId) (kind : OutputKind) (lines : List Line) :
    SameBuffers c (c.pushLines session kind lines).2 := by
  unfold Console.pushLines
  split
  · exact fun _ => rfl
  · rename_i found
    exact buffersSet found _

theorem buffersUpdate (c : Console) (session : SessionId) (group : GroupId) (text : Text) :
    SameBuffers c (c.update session group text).2 := by
  unfold Console.update
  split
  · exact fun _ => rfl
  · rename_i found
    split
    · exact buffersSet found _
    · exact fun _ => rfl
    · exact fun _ => rfl

theorem buffersDelete (c : Console) (session : SessionId) (group : GroupId) :
    SameBuffers c (c.delete session group).2 := by
  unfold Console.delete
  split
  · exact fun _ => rfl
  · rename_i found
    split
    · exact buffersSet found _
    · exact fun _ => rfl

theorem buffersClear (c : Console) (session : SessionId) : SameBuffers c (c.clear session) := by
  unfold Console.clear
  split
  · exact fun _ => rfl
  · rename_i found
    exact buffersSet found _

theorem buffersReplay (c : Console) (session : SessionId) (groups : List Group) :
    SameBuffers c (groups.foldl (fun console g => (console.replay session g).2) c) := by
  induction groups generalizing c with
  | nil => exact fun _ => rfl
  | cons group rest ih =>
    intro other
    rw [List.foldl_cons, ih]
    exact buffersPush c session group.kind group.lines other

structure SameRoster (s t : Shell) : Prop where
  opened : ∀ session, t.isOpen session = s.isOpen session
  buffers : SameBuffers s.console t.console
  counted : t.sessionCount = s.sessionCount

theorem SameRoster.same {s t : Shell} (sessions : t.sessions = s.sessions) (console : t.console = s.console)
    (counted : t.sessionCount = s.sessionCount) : SameRoster s t :=
  ⟨fun _ => by rw [Shell.isOpen, sessions, Shell.isOpen], fun _ => by rw [console], counted⟩

theorem SameRoster.refl (s : Shell) : SameRoster s s := .same rfl rfl rfl

theorem SameRoster.trans {s t u : Shell} (first : SameRoster s t) (second : SameRoster t u) :
    SameRoster s u where
  opened session := (second.opened session).trans (first.opened session)
  buffers session := (second.buffers session).trans (first.buffers session)
  counted := second.counted.trans first.counted

structure Kept (s t : Shell) : Prop extends SameRoster s t where
  config : t.config = s.config
  commands : t.registry.commands = s.registry.commands
  tasks : t.tasks = s.tasks
  taskCount : t.taskCount = s.taskCount
  outcomes : t.outcomes = s.outcomes
  sightings : t.sightings = s.sightings

theorem Kept.refl (s : Shell) : Kept s s := ⟨.refl s, rfl, rfl, rfl, rfl, rfl, rfl⟩

theorem Kept.trans {s t u : Shell} (first : Kept s t) (second : Kept t u) : Kept s u where
  toSameRoster := first.toSameRoster.trans second.toSameRoster
  config := second.config.trans first.config
  commands := second.commands.trans first.commands
  tasks := second.tasks.trans first.tasks
  taskCount := second.taskCount.trans first.taskCount
  outcomes := second.outcomes.trans first.outcomes
  sightings := second.sightings.trans first.sightings

variable (s : Shell) (c : Invocation)

theorem keptConsole {console : Console} (same : SameBuffers s.console console) :
    Kept s { s with console } :=
  ⟨⟨fun _ => rfl, same, rfl⟩, rfl, rfl, rfl, rfl, rfl, rfl⟩

theorem keptJobs (jobs : Jobs Echo) : Kept s { s with jobs } :=
  ⟨.same rfl rfl rfl, rfl, rfl, rfl, rfl, rfl, rfl⟩

theorem keptRequests (requests : Requests) : Kept s { s with requests } :=
  ⟨.same rfl rfl rfl, rfl, rfl, rfl, rfl, rfl, rfl⟩

theorem keptScopes (scopes : Scopes Echo) : Kept s { s with scopes } :=
  ⟨.same rfl rfl rfl, rfl, rfl, rfl, rfl, rfl, rfl⟩

theorem keptSession (session : SessionId) (change : Session → Session) :
    Kept s (s.onSession session change) := by
  refine ⟨⟨fun other => ?_, fun _ => rfl, rfl⟩, rfl, rfl, rfl, rfl, rfl, rfl⟩
  exact Dict.containsModify s.sessions session other change

theorem keptWake : Kept s s.wake :=
  ⟨.same rfl rfl rfl, rfl, rfl, rfl, rfl, rfl, rfl⟩

theorem keptPrintAt (session : SessionId) (job : Option JobId) (kind : OutputKind) (text : Text) :
    Kept s (s.printAt session job kind text).2 := by
  cases job with
  | none => exact keptConsole s (buffersPush _ _ _ _)
  | some id => exact keptJobs s _

theorem keptPrint (kind : OutputKind) (text : Text) : Kept s (s.print c kind text).2 :=
  keptPrintAt s c.session c.origin.job? kind text

theorem keptUpdate (group : GroupId) (text : Text) : Kept s (s.update c group text).2 := by
  unfold Shell.update
  split
  · exact keptConsole s (buffersUpdate _ _ _ _)
  · exact keptJobs s _

theorem keptDelete (group : GroupId) : Kept s (s.delete c group).2 := by
  unfold Shell.delete
  split
  · exact keptConsole s (buffersDelete _ _ _)
  · exact keptJobs s _

theorem keptClear : Kept s (s.clear c) := by
  unfold Shell.clear
  split
  · exact keptConsole s (buffersClear _ _)
  · exact keptJobs s _

theorem keptReplay (groups : List Group) : Kept s (s.replay c groups) := by
  unfold Shell.replay
  split
  · exact keptConsole s (buffersReplay _ _ _)
  · exact Kept.refl s

theorem keptEchoes (echoes : List Echo) : Kept s (echoes.foldl echo s) := by
  induction echoes generalizing s with
  | nil => exact Kept.refl s
  | cons e rest ih => exact (keptPrintAt s e.session e.job .output e.text).trans (ih _)

theorem keptOnScopes {α : Type} (change : α × List (Note Echo) × Scopes Echo) :
    Kept s (s.onScopes change).2 :=
  ((keptScopes s change.2.2).trans (keptEchoes _ _)).trans (keptWake _)

theorem keptOnCancel (text : Text) : Kept s (s.onCancel c text) := by
  unfold Shell.onCancel
  dsimp only
  split
  · exact keptOnScopes s _
  · split
    · exact keptPrintAt s _ _ _ _
    · exact keptJobs s _

theorem keptKill (id : JobId) : Kept s (s.killJob id).2 :=
  ((keptJobs s _).trans (keptEchoes _ _)).trans (keptWake _)

theorem keptSettle (id : JobId) (result : JobResult) : Kept s (s.settleJob id result) :=
  (keptJobs s _).trans (keptWake _)

theorem keptAwaitLine : Kept s (s.awaitLine c).2 := by
  unfold Shell.awaitLine
  split
  · exact Kept.refl s
  · split
    · exact Kept.refl s
    · exact (keptRequests s _).trans (keptWake _)

theorem keptDice (dice : Nat → Nat) : Kept s { s with dice } :=
  ⟨.same rfl rfl rfl, rfl, rfl, rfl, rfl, rfl, rfl⟩

theorem keptRoll (sides : Nat) : Kept s (s.roll sides).2 := by
  unfold Shell.roll
  exact keptDice s _

theorem keptChange (session : SessionId) (what : Change) : Kept s (s.change session what) := by
  cases what with
  | setVariable | unsetVariable | setEnvironment | unsetEnvironment | clearHistory =>
    exact keptSession s session _
  | setAlias | removeAlias | clearFinishedJobs | setGodMode =>
    exact ⟨.same rfl rfl rfl, rfl, rfl, rfl, rfl, rfl, rfl⟩
  | requestExit =>
    change Kept s (s.requestExit session)
    unfold Shell.requestExit
    split <;> exact ⟨.same rfl rfl rfl, rfl, rfl, rfl, rfl, rfl, rfl⟩

theorem keptPerform (left : Nat) (p : Program) : Kept s (perform c left p s).2 := by
  induction p generalizing left s with
  | finish | fail | crash => exact Kept.refl s
  | print kind text next ih => exact (keptPrint s c kind text).trans (ih _ _ _)
  | update group text next ih => exact (keptUpdate s c group text).trans (ih _ _ _)
  | delete group next ih => exact (keptDelete s c group).trans (ih _ _ _)
  | clear next ih => exact (keptClear s c).trans (ih _ _)
  | replay groups next ih => exact (keptReplay s c groups).trans (ih _ _)
  | inspect next ih => exact ih _ _ _
  | change what next ih => exact (keptChange s c.session what).trans (ih _ _)
  | kill job next ih => exact (keptKill s job).trans (ih _ _ _)
  | roll sides next ih =>
    have rolled := keptRoll s sides
    unfold perform
    generalize s.roll sides = roll at rolled ⊢
    exact rolled.trans (ih _ _ _)
  | onCancel text next ih => exact (keptOnCancel s c text).trans (ih _ _)
  | sleep span stopped next stoppedIh nextIh =>
    unfold perform
    split
    · exact stoppedIh _ _
    · split
      · exact Kept.refl s
      · split
        · exact nextIh _ _
        · exact Kept.refl s
  | readLine next ih =>
    have asked := keptAwaitLine s c
    unfold perform
    split <;> simpa [*] using asked
  | confirm message next ih =>
    have asked := (keptPrint s c .output (question message)).trans (keptAwaitLine _ c)
    unfold perform
    dsimp only
    split <;> simpa [*] using asked
  | awaitJob job next ih =>
    unfold perform
    split
    · exact ih _ _ _
    · exact Kept.refl s
    · split <;> exact Kept.refl s
  | awaitCancel next ih =>
    unfold perform
    split
    · exact ih _ _
    · exact Kept.refl s

theorem keptTakeLine (request : RequestId) {next : Text → Shell → Halt × Shell}
    (goes : ∀ text s, Kept s (next text s).2) : Kept s (takeLine request s next).2 := by
  unfold takeLine
  split
  · exact (keptRequests s _).trans (goes _ _)
  · exact keptRequests s _
  · exact keptRequests s _

theorem keptProceed (wait : Wait) : Kept s (proceed c s wait).2 := by
  cases wait with
  | sleep due stopped next => exact keptPerform s c _ _
  | line request next => exact keptTakeLine s request fun text s => keptPerform s c _ _
  | answer request next =>
    refine keptTakeLine s request fun text s => ?_
    split
    · exact keptPerform s c _ _
    · exact keptPerform s c _ _
    · have asked := (keptPrint s c .output askAgain).trans (keptAwaitLine _ c)
      dsimp only
      split <;> simpa [*] using asked
  | job watch next => exact keptPerform s c _ _
  | cancel next => exact keptPerform s c _ _

theorem keptAbort (wait : Wait) : Kept s (abort c s wait).2 := by
  cases wait with
  | sleep due stopped next => exact keptPerform s c _ _
  | line request next => exact keptRequests s _
  | answer request next => exact keptRequests s _
  | job watch next => exact Kept.refl s
  | cancel next => exact keptPerform s c _ _

theorem keptGoOn (tie : Tie) (wait : Wait) : Kept s (goOn tie c wait s).2 := by
  unfold goOn
  split
  · exact keptProceed s c wait
  · exact keptProceed s c wait
  · exact keptAbort s c wait
  · exact keptAbort s c wait
  · exact Kept.refl s

theorem rosterConclude (id : TaskId) (session : SessionId) (origin : Origin) (outcome : Outcome) :
    SameRoster s (s.conclude id session origin outcome) := by
  unfold Shell.conclude
  split
  · dsimp only
    split
    · rename_i error
      have told := (keptPrintAt s session none .error (Markup.escape error.message)).toSameRoster
      exact ⟨told.opened, told.buffers, told.counted⟩
    · exact .same rfl rfl rfl
  · split
    · exact (keptSettle s _ _).toSameRoster
    · exact .refl s

theorem rosterLeave (id : TaskId) (run : Halt × Shell) : SameRoster run.2 (leave id c run) := by
  obtain ⟨halt, t⟩ := run
  unfold leave
  cases halt with
  | waiting wait | yielded rest => exact .same rfl rfl rfl
  | ended ending =>
    dsimp only
    split
    · exact rosterConclude t id _ _ _
    · split
      · exact (keptSettle t _ _).toSameRoster
      · exact .refl t
    · exact .same rfl rfl rfl

theorem rosterDispatch (id : TaskId) (session : SessionId) (origin : Origin) (line : Text)
    (piped : Option (List Text)) : SameRoster s (s.dispatch id session origin line piped) := by
  unfold Shell.dispatch
  split
  · exact rosterConclude s id session origin _
  · exact rosterConclude s id session origin _
  · exact (keptPerform s _ _ _).toSameRoster.trans (rosterLeave _ id _)

theorem rosterStartJob (session : SessionId) (line : Text) (piped : Option (List Text)) :
    SameRoster s (s.startJob session line piped).2 := by
  unfold Shell.startJob
  dsimp only
  split <;> exact .same rfl rfl rfl

theorem rosterReport (session : SessionId) (report : Text) (id : TaskId) :
    SameRoster s (((s.printAt session none .output report).2).recordOutcome id .ok) :=
  have told := (keptPrintAt s session none .output report).toSameRoster
  ⟨told.opened, told.buffers, told.counted⟩

theorem rosterStartLine (id : TaskId) (session : SessionId) (typed : Text) (piped : Option (List Text)) :
    SameRoster s (s.startLine id session typed piped) := by
  have remembered : SameRoster s (s.remember session (Text.trim typed)) :=
    (keptSession s session _).toSameRoster
  unfold Shell.startLine
  dsimp only
  split
  · exact .same rfl rfl rfl
  refine remembered.trans ?_
  generalize s.remember session (Text.trim typed) = t
  split
  · rename_i assigned
    obtain ⟨data, -, made⟩ := Option.bind_eq_some_iff.mp assigned
    obtain ⟨⟨_, store⟩, -, same⟩ := Option.bind_eq_some_iff.mp made
    cases same
    exact (keptSession t session _).toSameRoster.trans (rosterReport _ session _ id)
  · split
    · exact (rosterStartJob t session _ piped).trans (rosterReport _ session _ id)
    · exact (keptOnScopes t _).toSameRoster.trans (rosterDispatch _ id session _ _ piped)

theorem rosterLook (id : TaskId) (job : JobId) : SameRoster s (s.look id job) := by
  unfold Shell.look
  split <;> exact .same rfl rfl rfl

theorem rosterResume (tie : Tie) (id : TaskId) : SameRoster s (s.resume tie id) := by
  have taken : SameRoster s (s.withdraw id) := .same rfl rfl rfl
  unfold Shell.resume
  split
  · exact taken
  · split
    · refine taken.trans ?_
      dsimp only
      split
      · exact rosterStartLine _ id _ _ _
      · exact rosterDispatch _ id _ _ _ _
      · exact (keptPerform _ _ _ _).toSameRoster.trans (rosterLeave _ id _)
      · exact (keptGoOn _ _ _ _).toSameRoster.trans (rosterLeave _ id _)
      · exact rosterLook _ id _
    · exact .same rfl rfl rfl

end ConsoleShell.Shell
