import ConsoleShell.Proofs.CommandTurns
import ConsoleShell.Proofs.Confinement

/-! One turn of a task. A command goes on, and a line becomes one, starts a job or is done with at once.
Every task runs for a session, and perhaps as a job, and whatever is left of it after its turn does
the same. -/
namespace ConsoleShell.Confinement
open Shell (Sound)

def session? : Shell.Task → Option SessionId
  | .line session _ _ | .job session _ _ _ _ => some session
  | .program c _ | .waiting c _ => some c.session
  | .watcher _ => none

def job? : Shell.Task → Option JobId
  | .job _ id _ _ _ => some id
  | .program c _ | .waiting c _ => c.origin.job?
  | .line _ _ _ | .watcher _ => none

inductive CommandTurn (id : TaskId) (task : Shell.Task) (c : Invocation) (s : Shell) : Shell → Prop where
  | refused (outcome : Outcome) : CommandTurn id task c s (s.conclude id c.session c.origin outcome)
  | halted {run} (performed : Performed c s run) : CommandTurn id task c s (Shell.leave id c run)
  | wentOn {wait run} (same : task = .waiting c wait) (goesOn : GoesOn c wait s run) :
      CommandTurn id task c s (Shell.leave id c run)

structure Noted (session : SessionId) (s t : Shell) : Prop extends Private session s t where
  jobs : t.jobs = s.jobs
  requests : t.requests = s.requests
  tasks : t.tasks = s.tasks
  taskCount : t.taskCount = s.taskCount

inductive LineTurn (id : TaskId) (task : Shell.Task) (session : SessionId) (s : Shell) : Shell → Prop where
  | noted {t} (noted : Noted session s t) : LineTurn id task session s t
  | job {u t command piped} (before : Noted session s u)
      (after : Noted session (u.startJob session command piped).2 t) : LineTurn id task session s t
  | command {u t c} (before : Noted session s u) (own : c.session = session)
      (foreground : c.origin.job? = none) (turn : CommandTurn id task c u t) :
      LineTurn id task session s t

inductive TaskTurn (s : Shell) (id : TaskId) (task : Shell.Task) : Shell → Prop where
  | waits : TaskTurn s id task { s with ready := s.ready.filter fun other => !decide (other = id) }
  | line {session t} (own : session? task = some session) (foreground : job? task = none)
      (turn : LineTurn id task session (s.withdraw id) t) : TaskTurn s id task t
  | command {c t} (own : session? task = some c.session) (place : job? task = c.origin.job?)
      (turn : CommandTurn id task c (s.withdraw id) t) : TaskTurn s id task t
  | watcher {watch} (same : task = .watcher watch) :
      TaskTurn s id task ((s.withdraw id).look id watch.job)

variable {s t u : Shell} {c : Invocation} {id : TaskId} {task : Shell.Task} {session : SessionId}

theorem dispatchTurn (h : Sound s) (id : TaskId) (task : Shell.Task) (session : SessionId)
    (origin : Origin) (line : Text) (piped : Option (List Text)) :
    ∃ c : Invocation, c.session = session ∧ c.origin = origin ∧
      CommandTurn id task c s (s.dispatch id session origin line piped) := by
  unfold Shell.dispatch
  split
  · exact ⟨⟨session, origin, none⟩, rfl, rfl, .refused _⟩
  · exact ⟨⟨session, origin, none⟩, rfl, rfl, .refused _⟩
  · rename_i call read
    exact ⟨⟨session, origin, some call.command.name⟩, rfl, rfl,
      .halted (performed h.toClean (Foreground.calledProgram h read _) _)⟩

theorem Noted.refl (s : Shell) : Noted session s s := ⟨.refl s, rfl, rfl, rfl, rfl⟩

theorem Noted.trans (first : Noted session s t) (second : Noted session t u) : Noted session s u where
  toPrivate := first.toPrivate.trans second.toPrivate
  jobs := second.jobs.trans first.jobs
  requests := second.requests.trans first.requests
  tasks := second.tasks.trans first.tasks
  taskCount := second.taskCount.trans first.taskCount

theorem notedSession (s : Shell) (session : SessionId) (change : Session → Session) :
    Noted session s (s.onSession session change) :=
  ⟨privateSession s session change, rfl, rfl, rfl, rfl⟩

theorem notedReport (s : Shell) (session : SessionId) (report : Text) (id : TaskId) :
    Noted session s (((s.printAt session none .output report).2).recordOutcome id .ok) :=
  ⟨(privatePrint s session .output report).trans (.same rfl rfl rfl rfl), rfl, rfl, rfl, rfl⟩

theorem notedBegin (h : Sound s) (session : SessionId) : Noted session s (s.beginScope session).2 := by
  unfold Shell.beginScope
  rw [Captured.silentBegin h.scopes]
  exact ⟨.same rfl rfl rfl rfl, rfl, rfl, rfl, rfl⟩

theorem startLineTurn (h : Sound s) (id : TaskId) (task : Shell.Task) (session : SessionId)
    (typed : Text) (piped : Option (List Text)) :
    LineTurn id task session s (s.startLine id session typed piped) := by
  unfold Shell.startLine
  dsimp only
  split
  · exact .noted ⟨.same rfl rfl rfl rfl, rfl, rfl, rfl, rfl⟩
  have first : Noted session s (s.remember session (Text.trim typed)) := notedSession s session _
  have sound : Sound (s.remember session (Text.trim typed)) := Shell.soundSession h session _
  generalize s.remember session (Text.trim typed) = t at first sound
  split
  · rename_i assignment assigned made
    obtain ⟨data, -, made⟩ := Option.bind_eq_some_iff.mp made
    obtain ⟨⟨_, store⟩, -, same⟩ := Option.bind_eq_some_iff.mp made
    cases same
    have stored : Noted session t (t.onStore session fun _ => store) := notedSession t session _
    exact .noted ((first.trans stored).trans (notedReport _ session _ id))
  · split
    · exact .job first (notedReport _ session _ id)
    · have begun := notedBegin sound session
      have opened := Shell.soundKept sound (Shell.keptOnScopes t (t.scopes.begin session))
        (Shell.cleanBegin sound.toClean session)
      obtain ⟨c, own, place, turn⟩ := dispatchTurn opened id task session
        (.foreground (t.beginScope session).1) (Text.trim typed) piped
      exact .command (first.trans begun) own (by rw [place]; rfl) turn

theorem resumeTurn (h : Sound s) (found : s.tasks.lookup id = some task) (tie : Shell.Tie) :
    TaskTurn s id task (s.resume tie id) := by
  have tidy : Shell.TaskTidy task := h.tidy _ (Shell.lookedUp found)
  have rest := Shell.soundWithdraw h id
  unfold Shell.resume
  rw [found]
  dsimp only
  split
  · cases task with
    | line session text piped => exact .line rfl rfl (startLineTurn rest id _ session text piped)
    | job session job signal text piped =>
      obtain ⟨c, own, place, turn⟩ := dispatchTurn rest id (.job session job signal text piped) session
        (.job job signal) text piped
      exact .command (by rw [own]; rfl) (by rw [place]; rfl) turn
    | program c program => exact .command rfl rfl (.halted (performed rest.toClean tidy _))
    | waiting c wait => exact .command rfl rfl (.wentOn rfl (goesOn rest.toClean tidy tie))
    | watcher watch => exact .watcher rfl
  · exact .waits

theorem granted {request : RequestId} (asked : s.awaitLine c = (.ok request, t)) :
    c.origin.job? = none ∧ request = ⟨s.requests.states.length⟩ ∧
      t = Shell.wake { s with requests := RequestMove.run s.requests (.await c.session) } := by
  unfold Shell.awaitLine at asked
  split at asked
  · cases asked
  · rename_i place
    split at asked
    · cases asked
    · cases asked
      exact ⟨by rw [place]; rfl, rfl, rfl⟩

theorem withinRequests (s : Shell) (c : Invocation) (requests : Requests) :
    Within c s { s with requests } :=
  ⟨.same rfl rfl rfl rfl, fun _ => ⟨rfl, rfl⟩, .refl _, rfl⟩

theorem Performed.within {run : Halt × Shell} (performed : Performed c s run) : Within c s run.2 := by
  cases performed with
  | idle confined none => exact confined.toWithin
  | asks confined asked waits =>
    obtain ⟨-, -, rfl⟩ := granted asked
    exact (confined.toWithin.trans (withinRequests _ c _)).trans (confinedWake _ c).toWithin

theorem GoesOn.within {wait : Wait} {run : Halt × Shell} (goesOn : GoesOn c wait s run) :
    Within c s run.2 := by
  cases goesOn with
  | stays => exact .refl s
  | free none performed => exact performed.within
  | looks waited look performed => exact (withinRequests s c _).trans performed.within

theorem CommandTurn.within (turn : CommandTurn id task c s t) : Within c s t := by
  cases turn with
  | refused outcome => exact (confinedConclude s id outcome).toWithin
  | halted performed => exact performed.within.trans (left id _).toWithin
  | wentOn same goesOn => exact goesOn.within.trans (left id _).toWithin

theorem privateStart (s : Shell) (session : SessionId) (line : Text) (piped : Option (List Text)) :
    Private session s (s.startJob session line piped).2 := by
  unfold Shell.startJob
  dsimp only
  split
  · exact .same rfl rfl rfl rfl
  · exact .same rfl rfl rfl rfl

theorem LineTurn.private (turn : LineTurn id task session s t) : Private session s t := by
  cases turn with
  | noted noted => exact noted.toPrivate
  | job before after =>
    exact (before.toPrivate.trans (privateStart _ session _ _)).trans after.toPrivate
  | command before own foreground turn =>
    exact before.toPrivate.trans (own ▸ turn.within.toPrivate)

theorem privateWithdraw (s : Shell) (session : SessionId) (id : TaskId) :
    Private session s (s.withdraw id) :=
  .same rfl rfl rfl rfl

theorem TaskTurn.private (turn : TaskTurn s id task t) (own : session? task = some session) :
    Private session s t := by
  cases turn with
  | waits => exact .same rfl rfl rfl rfl
  | line other foreground turn =>
    cases own.symm.trans other
    exact (privateWithdraw s _ id).trans turn.private
  | command other place turn =>
    cases own.symm.trans other
    exact (privateWithdraw s _ id).trans turn.within.toPrivate
  | watcher same =>
    rw [same] at own
    contradiction

end ConsoleShell.Confinement
