import ConsoleShell.Proofs.OwnRequests

/-! What the commands of a session depend on. In two shells that agree on what a session has to itself and on
what all sessions share, which is aliases and commands, god mode and the jobs, a command of that
session does the same, whatever else there may be in either of them. -/
namespace ConsoleShell.AlikeTurns
open Confinement Printing RequestTurns
open Shell (Clean)

def asked? (s : Scopes Echo) (session : SessionId) : Option Bool :=
  (s.live.get? session).map fun scope => s.signals.isFired scope.signal

def holds (s : Scopes Echo) (session : SessionId) (scope : Scope) : Bool :=
  (s.live.get? session).any fun live => live.id = scope.id

/- What one session has to itself, and what sessions share. Settings, time and chance are the same for both
shells. -/
structure Alike (session : SessionId) (a b : Shell) : Prop where
  data : b.sessions.get? session = a.sessions.get? session
  buffer : b.console.buffer? session = a.console.buffer? session
  exits : session ∈ b.exits ↔ session ∈ a.exits
  scope : asked? b.scopes session = asked? a.scopes session
  pending : b.requests.hasPending session = a.requests.hasPending session
  registry : b.registry = a.registry
  godMode : b.godMode = a.godMode
  jobs : b.jobs = a.jobs
  config : b.config = a.config
  clock : b.clock = a.clock
  wall : b.wall = a.wall
  dice : b.dice = a.dice

inductive Placed (session : SessionId) (a b : Shell) : Origin → Origin → Prop where
  | foreground {x y : Scope}
      (fired : b.scopes.signals.isFired y.signal = a.scopes.signals.isFired x.signal)
      (live : holds b.scopes session y = holds a.scopes session x) :
      Placed session a b (.foreground x) (.foreground y)
  | job (id : JobId) (signal : SignalId) : Placed session a b (.job id signal) (.job id signal)

structure Together (c d : Invocation) (a b : Shell) : Prop extends Alike c.session a b where
  session : d.session = c.session
  command : d.command = c.command
  placed : Placed c.session a b c.origin d.origin

/- What is waited for is the same. Requests may have different numbers. -/
inductive WaitsAlike (a b : Shell) : Wait → Wait → Prop where
  | same {wait : Wait} (unasked : request? wait = none) : WaitsAlike a b wait wait
  | line {x y : RequestId} (next : Text → Program) (state : b.requests.state y = a.requests.state x) :
      WaitsAlike a b (.line x next) (.line y next)
  | answer {x y : RequestId} (next : Bool → Program) (state : b.requests.state y = a.requests.state x) :
      WaitsAlike a b (.answer x next) (.answer y next)

inductive HaltsAlike (a b : Shell) : Halt → Halt → Prop where
  | ended (ending : Ending) : HaltsAlike a b (.ended ending) (.ended ending)
  | waiting {v w : Wait} (waits : WaitsAlike a b v w) : HaltsAlike a b (.waiting v) (.waiting w)
  | yielded (rest : Program) : HaltsAlike a b (.yielded rest) (.yielded rest)

variable {a b x y : Shell} {c d : Invocation} {session : SessionId}

theorem Placed.same {o p : Origin} (placed : Placed session a b o p) (left : x.scopes = a.scopes)
    (right : y.scopes = b.scopes) : Placed session x y o p := by
  cases placed with
  | foreground fired live => exact .foreground (by rw [left, right, fired]) (by rw [left, right, live])
  | job id signal => exact .job id signal

theorem Together.next (h : Together c d a b) (alike : Alike c.session x y) (left : x.scopes = a.scopes)
    (right : y.scopes = b.scopes) : Together c d x y :=
  ⟨alike, h.session, h.command, h.placed.same left right⟩

theorem WaitsAlike.stay {v w : Wait} (waits : WaitsAlike a b v w) (left : x.requests = a.requests)
    (right : y.requests = b.requests) : WaitsAlike x y v w := by
  cases waits with
  | same none => exact .same none
  | line next state => exact .line next (by rw [left, right, state])
  | answer next state => exact .answer next (by rw [left, right, state])

theorem Together.job (h : Together c d a b) : d.origin.job? = c.origin.job? := by
  obtain ⟨c, o, name⟩ := c
  obtain ⟨d, p, other⟩ := d
  cases h.placed <;> rfl

theorem Together.cancelled (h : Together c d a b) :
    b.isCancelled d.origin = a.isCancelled c.origin := by
  have jobs := h.jobs
  obtain ⟨c, o, name⟩ := c
  obtain ⟨d, p, other⟩ := d
  cases h.placed with
  | foreground fired => exact fired
  | job id signal =>
    unfold Shell.isCancelled
    rw [jobs]

theorem Alike.console (h : Alike session a b) {left right : Console}
    (same : right.buffer? session = left.buffer? session) :
    Alike session { a with console := left } { b with console := right } :=
  { h with buffer := same }

theorem Alike.jobsTo (h : Alike session a b) (jobs : Jobs Echo) :
    Alike session { a with jobs } { b with jobs } :=
  { h with jobs := rfl }

theorem Alike.wake (h : Alike session a b) : Alike session a.wake b.wake := { h with }

theorem Alike.requests (h : Alike session a b) {left right : Requests}
    (pending : right.hasPending session = left.hasPending session) :
    Alike session { a with requests := left } { b with requests := right } := { h with pending }

section Pending

variable {r : Requests} {id : RequestId}

theorem awaitPends (r : Requests) (session : SessionId) :
    (r.await session).2.2.hasPending session = true := by
  unfold Requests.hasPending
  rw [awaitPending, Dict.getInsert, if_pos rfl]
  simp [newWaits]

theorem pollPends (r : Requests) (id : RequestId) :
    (r.poll id).2.hasPending session = r.hasPending session := by
  unfold Requests.hasPending
  rw [pollPending]
  cases r.pending.get? session with
  | none => rfl
  | some stands =>
    rw [Option.any_some, Option.any_some, statePolled]
    split
    · cases r.state stands <;> rfl
    · rfl

def Stands (r : Requests) (session : SessionId) (id : RequestId) : Prop :=
  r.state id = .waiting → r.pending.get? session = some id

theorem abandonPends (stands : Stands r session id) :
    (r.abandon id).hasPending session = (r.hasPending session && r.state id != .waiting) := by
  have pending : (r.abandon id).pending = r.pending := rfl
  unfold Requests.hasPending
  rw [pending]
  by_cases waits : r.state id = .waiting
  · rw [stands waits, Option.any_some, Option.any_some, waits]
    simp [Requests.abandon, stateClosed]
  · cases r.pending.get? session with
    | none => rfl
    | some other =>
      rw [Option.any_some, Option.any_some]
      by_cases same : other = id
      · simp [Requests.abandon, stateClosed, same, waits]
      · simp [Requests.abandon, stateClosed, same, waits]

def Standing (s : Shell) (session : SessionId) (wait : Wait) : Prop :=
  ∀ request, request? wait = some request → Stands s.requests session request

theorem abandonAlike (h : Alike session a b) {x y : RequestId} (left : Stands a.requests session x)
    (right : Stands b.requests session y) (state : b.requests.state y = a.requests.state x) :
    (b.requests.abandon y).hasPending session = (a.requests.abandon x).hasPending session := by
  rw [abandonPends left, abandonPends right, h.pending, state]

end Pending

theorem Alike.onSession (h : Alike session a b) (change : Session → Session) :
    Alike session (a.onSession session change) (b.onSession session change) := by
  have same : (b.sessions.modify session change).get? session =
      (a.sessions.modify session change).get? session := by
    rw [Dict.getModify, Dict.getModify, h.data]
  exact { h with data := same }

theorem Alike.exit (h : Alike session a b) :
    Alike session (a.requestExit session) (b.requestExit session) := by
  have exits := h.exits
  unfold Shell.requestExit
  simp only [List.contains_eq_mem, decide_eq_true_eq]
  split
  · rename_i there
    rw [if_pos (exits.mpr there)]
    exact h
  · rename_i absent
    rw [if_neg fun there => absent (exits.mp there)]
    exact { h with exits := by simp }

section Consoles

variable {left right : Console} (same : right.buffer? session = left.buffer? session)

theorem bufferSet (c : Console) (session : SessionId) (b : Buffer) :
    (c.setBuffer session b).buffer? session = some b := by
  unfold Console.setBuffer Console.buffer?
  rw [Dict.getInsert, if_pos rfl]

include same

theorem pushAlike (kind : OutputKind) (lines : List Line) :
    (right.pushLines session kind lines).1 = (left.pushLines session kind lines).1 ∧
      (right.pushLines session kind lines).2.buffer? session =
        (left.pushLines session kind lines).2.buffer? session := by
  unfold Console.pushLines
  rw [same]
  cases left.buffer? session with
  | none => exact ⟨rfl, same⟩
  | some b => exact ⟨rfl, (bufferSet right session _).trans (bufferSet left session _).symm⟩

theorem updateAlike (group : GroupId) (text : Text) :
    (right.update session group text).1 = (left.update session group text).1 ∧
      (right.update session group text).2.buffer? session =
        (left.update session group text).2.buffer? session := by
  unfold Console.update
  rw [same]
  cases left.buffer? session with
  | none => exact ⟨rfl, same⟩
  | some b =>
    dsimp only
    split
    · exact ⟨rfl, (bufferSet right session _).trans (bufferSet left session _).symm⟩
    · exact ⟨rfl, same⟩
    · exact ⟨rfl, same⟩

theorem deleteAlike (group : GroupId) :
    (right.delete session group).1 = (left.delete session group).1 ∧
      (right.delete session group).2.buffer? session = (left.delete session group).2.buffer? session := by
  unfold Console.delete
  rw [same]
  cases left.buffer? session with
  | none => exact ⟨rfl, same⟩
  | some b =>
    dsimp only
    split
    · exact ⟨rfl, (bufferSet right session _).trans (bufferSet left session _).symm⟩
    · exact ⟨rfl, same⟩

theorem clearAlike : (right.clear session).buffer? session = (left.clear session).buffer? session := by
  unfold Console.clear
  rw [same]
  cases left.buffer? session with
  | none => exact same
  | some b => exact (bufferSet right session _).trans (bufferSet left session _).symm

theorem replayAlike (groups : List Group) :
    (groups.foldl (fun console g => (console.replay session g).2) right).buffer? session =
      (groups.foldl (fun console g => (console.replay session g).2) left).buffer? session := by
  induction groups generalizing left right with
  | nil => exact same
  | cons g rest ih => exact ih (pushAlike same g.kind g.lines).2

end Consoles

section Actions

variable (h : Together c d a b)

include h

theorem togetherPrint (kind : OutputKind) (text : Text) :
    (b.print d kind text).1 = (a.print c kind text).1 ∧
      Together c d (a.print c kind text).2 (b.print d kind text).2 := by
  unfold Shell.print Shell.printAt
  rw [h.job, h.session]
  cases c.origin.job? with
  | none =>
    obtain ⟨group, buffer⟩ := pushAlike h.buffer kind (Render.text kind text)
    have same : ((b.console.print c.session kind text).1.getD ⟨0⟩ : GroupId) =
        (a.console.print c.session kind text).1.getD ⟨0⟩ :=
      congrArg (fun made : Option GroupId => made.getD ⟨0⟩) group
    exact ⟨same, h.next (h.console buffer) rfl rfl⟩
  | some id =>
    dsimp only [Shell.setJobs]
    rw [h.jobs]
    exact ⟨rfl, h.next (h.jobsTo _) rfl rfl⟩

theorem togetherUpdate (group : GroupId) (text : Text) :
    (b.update d group text).1 = (a.update c group text).1 ∧
      Together c d (a.update c group text).2 (b.update d group text).2 := by
  unfold Shell.update
  rw [h.job, h.session]
  cases c.origin.job? with
  | none =>
    obtain ⟨there, buffer⟩ := updateAlike h.buffer group text
    exact ⟨there, h.next (h.console buffer) rfl rfl⟩
  | some id =>
    dsimp only [Shell.setJobs]
    rw [h.jobs]
    exact ⟨rfl, h.next (h.jobsTo _) rfl rfl⟩

theorem togetherDelete (group : GroupId) :
    (b.delete d group).1 = (a.delete c group).1 ∧
      Together c d (a.delete c group).2 (b.delete d group).2 := by
  unfold Shell.delete
  rw [h.job, h.session]
  cases c.origin.job? with
  | none =>
    obtain ⟨there, buffer⟩ := deleteAlike h.buffer group
    exact ⟨there, h.next (h.console buffer) rfl rfl⟩
  | some id =>
    dsimp only [Shell.setJobs]
    rw [h.jobs]
    exact ⟨rfl, h.next (h.jobsTo _) rfl rfl⟩

theorem togetherClear : Together c d (a.clear c) (b.clear d) := by
  unfold Shell.clear
  rw [h.job, h.session]
  cases c.origin.job? with
  | none => exact h.next (h.console (clearAlike h.buffer)) rfl rfl
  | some id =>
    dsimp only
    rw [h.jobs]
    exact h.next (h.jobsTo _) rfl rfl

theorem togetherReplay (groups : List Group) : Together c d (a.replay c groups) (b.replay d groups) := by
  unfold Shell.replay
  rw [h.job, h.session]
  cases c.origin.job? with
  | none => exact h.next (h.console (replayAlike h.buffer groups)) rfl rfl
  | some id => exact h

theorem togetherView : b.view d = a.view c := by
  unfold Shell.view Shell.store Shell.history
  rw [h.session, h.data, h.registry, h.jobs, h.godMode, h.wall, h.cancelled]

theorem togetherKill (left : Clean a) (right : Clean b) (id : JobId) :
    (b.killJob id).1 = (a.killJob id).1 ∧ Together c d (a.killJob id).2 (b.killJob id).2 := by
  obtain ⟨first, killed⟩ := Shell.killedQuietly left id
  obtain ⟨second, gone⟩ := Shell.killedQuietly right id
  have same : b.jobs.kill id b.wall = a.jobs.kill id a.wall := by rw [h.jobs, h.wall]
  have jobs : (b.jobs.kill id b.wall).2.2 = (a.jobs.kill id a.wall).2.2 := by rw [same]
  rw [killed, gone]
  refine ⟨?_, h.next { h.toAlike with jobs := jobs } rfl rfl⟩
  change (b.jobs.kill id b.wall).1 = (a.jobs.kill id a.wall).1
  rw [same]

theorem togetherChange (what : Change) :
    Together c d (a.change c.session what) (b.change d.session what) := by
  rw [h.session]
  cases what with
  | setVariable | unsetVariable | setEnvironment | unsetEnvironment | clearHistory =>
    exact h.next (h.onSession _) rfl rfl
  | setAlias name target =>
    have same : b.registry.setAlias name target = a.registry.setAlias name target := by rw [h.registry]
    exact h.next { h.toAlike with registry := same } rfl rfl
  | removeAlias name =>
    have same : b.registry.removeAlias name = a.registry.removeAlias name := by rw [h.registry]
    exact h.next { h.toAlike with registry := same } rfl rfl
  | setGodMode on => exact h.next { h.toAlike with godMode := rfl } rfl rfl
  | clearFinishedJobs =>
    have same : b.jobs.clearFinished.2 = a.jobs.clearFinished.2 := by rw [h.jobs]
    exact h.next { h.toAlike with jobs := same } rfl rfl
  | requestExit =>
    exact h.next h.exit (Shell.scopesDo a c.session .requestExit) (Shell.scopesDo b c.session .requestExit)

theorem togetherDice (dice : Nat → Nat) : Together c d { a with dice } { b with dice } :=
  h.next { h.toAlike with dice := rfl } rfl rfl

theorem togetherRoll (sides : Nat) :
    (b.roll sides).1 = (a.roll sides).1 ∧ Together c d (a.roll sides).2 (b.roll sides).2 := by
  unfold Shell.roll
  rw [h.dice]
  exact ⟨rfl, togetherDice h _⟩

theorem togetherAsked :
    (∃ x y, (a.awaitLine c).1 = .ok x ∧ (b.awaitLine d).1 = .ok y ∧
      (b.awaitLine d).2.requests.state y = (a.awaitLine c).2.requests.state x ∧
      Together c d (a.awaitLine c).2 (b.awaitLine d).2) ∨
    ∃ failure, a.awaitLine c = (.error failure, a) ∧ b.awaitLine d = (.error failure, b) := by
  have cancelled := h.cancelled
  have session := h.session
  obtain ⟨u, o, name⟩ := c
  obtain ⟨v, p, other⟩ := d
  cases (session : v = u)
  cases place : h.placed with
  | job id signal => exact .inr ⟨_, rfl, rfl⟩
  | foreground fired =>
    unfold Shell.awaitLine
    dsimp only at cancelled ⊢
    rw [cancelled]
    split
    · exact .inr ⟨_, rfl, rfl⟩
    · have pending := (awaitPends b.requests u).trans (awaitPends a.requests u).symm
      refine .inl ⟨_, _, rfl, rfl, ?_, h.next (h.requests pending).wake rfl rfl⟩
      exact (newWaits b.requests _).trans (newWaits a.requests _).symm

end Actions

structure RunsAlike (c d : Invocation) (left right : Halt × Shell) : Prop where
  halts : HaltsAlike left.2 right.2 left.1 right.1
  together : Together c d left.2 right.2

theorem askedAlike (h : Together c d a b) {v : RequestId → Wait}
    (waits : ∀ {s t : Shell} {x y}, t.requests.state y = s.requests.state x → WaitsAlike s t (v x) (v y)) :
    RunsAlike c d
      (match a.awaitLine c with
        | (.ok request, s) => (.waiting (v request), s)
        | (.error failure, s) => (.ended (.failed failure), s))
      (match b.awaitLine d with
        | (.ok request, s) => (.waiting (v request), s)
        | (.error failure, s) => (.ended (.failed failure), s)) := by
  rcases togetherAsked h with ⟨x, y, left, right, state, together⟩ | ⟨failure, left, right⟩
  · generalize a.awaitLine c = first at left state together
    generalize b.awaitLine d = second at right state together
    obtain ⟨_, s⟩ := first
    obtain ⟨_, t⟩ := second
    cases (left : _ = _)
    cases (right : _ = _)
    exact ⟨.waiting (waits state), together⟩
  · rw [left, right]
    exact ⟨.ended _, h⟩

theorem answeredAlike {α : Type} {first second : α × Shell} (same : second.1 = first.1)
    {n : Nat} {next : α → Program} (goes : ∀ answer, RunsAlike c d
      (Shell.perform c n (next answer) first.2) (Shell.perform d n (next answer) second.2)) :
    RunsAlike c d (Shell.perform c n (next first.1) first.2)
      (Shell.perform d n (next second.1) second.2) := by
  rw [same]
  exact goes first.1

theorem performAlike (left : Clean a) (right : Clean b) (h : Together c d a b) {p : Program}
    (tidy : Tidy p) (n : Nat) : RunsAlike c d (Shell.perform c n p a) (Shell.perform d n p b) := by
  -- Whatever a program looks at is its session's or shared, so both runs take the same branch.
  induction p generalizing n a b with
  | finish | fail | crash => exact ⟨.ended _, h⟩
  | print kind text next ih =>
    obtain ⟨group, together⟩ := togetherPrint h kind text
    unfold Shell.perform
    exact answeredAlike group fun answer => ih answer (Shell.cleanPrint left c kind tidy.1)
      (Shell.cleanPrint right d kind tidy.1) together (tidy.2 _) n
  | update group text next ih =>
    obtain ⟨there, together⟩ := togetherUpdate h group text
    unfold Shell.perform
    exact answeredAlike there fun answer => ih answer (Shell.cleanUpdate left c group tidy.1)
      (Shell.cleanUpdate right d group tidy.1) together (tidy.2 _) n
  | delete group next ih =>
    obtain ⟨there, together⟩ := togetherDelete h group
    unfold Shell.perform
    exact answeredAlike there fun answer => ih answer (Shell.cleanDelete left c group)
      (Shell.cleanDelete right d group) together (tidy _) n
  | clear next ih =>
    exact ih (Shell.cleanClear left c) (Shell.cleanClear right d) (togetherClear h) tidy n
  | replay groups next ih =>
    exact ih (Shell.cleanReplay left c tidy.1) (Shell.cleanReplay right d tidy.1)
      (togetherReplay h groups) tidy.2 n
  | inspect next ih =>
    unfold Shell.perform
    rw [togetherView h]
    exact ih _ left right h (tidy _ (Captured.jobsListed left.jobs false)) n
  | change what next ih =>
    exact ih (Shell.cleanChange left c.session what) (Shell.cleanChange right d.session what)
      (togetherChange h what) tidy n
  | kill job next ih =>
    obtain ⟨outcome, together⟩ := togetherKill h left right job
    unfold Shell.perform
    exact answeredAlike outcome fun answer => ih answer (Shell.cleanKill left job)
      (Shell.cleanKill right job) together (tidy _) n
  | roll sides next ih =>
    obtain ⟨number, together⟩ := togetherRoll h sides
    have first := Shell.cleanRoll left sides
    have second := Shell.cleanRoll right sides
    unfold Shell.perform
    generalize a.roll sides = one at number together first
    generalize b.roll sides = other at number together second
    exact answeredAlike number fun answer => ih answer first second together (tidy _) n
  | onCancel text next ih => exact tidy.elim
  | sleep span stopped next stoppedIh nextIh =>
    unfold Shell.perform
    rw [h.cancelled]
    split
    · exact stoppedIh left right h tidy.1 n
    · cases n with
      | zero => exact ⟨.yielded _, h⟩
      | succ n =>
        dsimp only
        split
        · exact nextIh left right h tidy.2 n
        · rw [h.clock]
          exact ⟨.waiting (.same rfl), h⟩
  | readLine next ih =>
    unfold Shell.perform
    exact askedAlike h fun state => .line next state
  | confirm message next ih =>
    unfold Shell.perform
    exact askedAlike (togetherPrint h .output (Shell.question message)).2 fun state => .answer next state
  | awaitJob job next ih =>
    unfold Shell.perform
    rw [h.jobs]
    split
    · rename_i seen
      exact ih _ left right h (tidy _ (Captured.jobsWatched left.jobs seen)) n
    · exact ⟨.ended _, h⟩
    · rw [h.cancelled]
      split
      · exact ⟨.ended _, h⟩
      · exact ⟨.waiting (.same rfl), h⟩
  | awaitCancel next ih =>
    unfold Shell.perform
    rw [h.cancelled]
    split
    · exact ih left right h tidy n
    · exact ⟨.waiting (.same rfl), h⟩

section Waits

variable (left : Clean a) (right : Clean b) (h : Together c d a b)

include left right h

theorem takenAlike {x y : RequestId} (state : b.requests.state y = a.requests.state x)
    (stands : Stands a.requests c.session x) (standing : Stands b.requests c.session y)
    {f g : Text → Shell → Halt × Shell}
    (goes : ∀ text s t, Clean s → Clean t → Together c d s t → RunsAlike c d (f text s) (g text t)) :
    RunsAlike c d (Shell.takeLine x a f) (Shell.takeLine y b g) := by
  have looked : Together c d { a with requests := (a.requests.poll x).2 }
      { b with requests := (b.requests.poll y).2 } :=
    h.next (h.requests ((pollPends _ y).trans (h.pending.trans (pollPends _ x).symm))) rfl rfl
  -- A request that nothing came of is dropped; its place is empty then in both shells or in neither.
  have dropped := h.next (h.requests (abandonAlike h.toAlike stands standing state)) rfl rfl
  unfold Requests.poll at looked
  unfold Shell.takeLine Requests.poll
  rw [state] at looked ⊢
  cases known : a.requests.state x with
  | waiting => exact ⟨.ended _, dropped⟩
  | answered line =>
    rw [known] at looked
    exact goes line _ _ (left.same rfl rfl rfl) (right.same rfl rfl rfl) looked
  | replaced =>
    rw [known] at looked
    exact ⟨.ended _, looked⟩
  | closed => exact ⟨.ended _, dropped⟩

theorem proceedAlike {v w : Wait} (waits : WaitsAlike a b v w) (tidy : Shell.WaitTidy v)
    (stands : Standing a c.session v) (standing : Standing b c.session w) :
    RunsAlike c d (Shell.proceed c a v) (Shell.proceed d b w) := by
  cases waits with
  | line next state =>
    exact takenAlike left right h state (stands _ rfl) (standing _ rfl) fun text s t first second together =>
      performAlike first second together (tidy text) _
  | answer next state =>
    unfold Shell.proceed
    refine takenAlike left right h state (stands _ rfl) (standing _ rfl)
      fun text s t first second together => ?_
    cases Answer.ofLine text with
    | yes => exact performAlike first second together (tidy true) _
    | no => exact performAlike first second together (tidy false) _
    | unclear =>
      exact askedAlike (togetherPrint together .output Shell.askAgain).2 fun state => .answer next state
  | same none =>
    cases v with
    | sleep due stopped next => exact performAlike left right h tidy.2 _
    | line request next => cases none
    | answer request next => cases none
    | job watch next =>
      have again : Tidy (.awaitJob watch.job next) := tidy
      exact performAlike left right h again _
    | cancel next => exact performAlike left right h tidy _

theorem abortAlike {v w : Wait} (waits : WaitsAlike a b v w) (tidy : Shell.WaitTidy v)
    (stands : Standing a c.session v) (standing : Standing b c.session w) :
    RunsAlike c d (Shell.abort c a v) (Shell.abort d b w) := by
  have dropped {x y : RequestId} (state : b.requests.state y = a.requests.state x)
      (first : request? v = some x) (second : request? w = some y) :=
    h.next (h.requests (abandonAlike h.toAlike (stands x first) (standing y second) state)) rfl rfl
  cases waits with
  | line next state => exact ⟨.ended _, dropped state rfl rfl⟩
  | answer next state => exact ⟨.ended _, dropped state rfl rfl⟩
  | same none =>
    cases v with
    | sleep due stopped next => exact performAlike left right h tidy.1 _
    | line request next => cases none
    | answer request next => cases none
    | job watch next => exact ⟨.ended _, h⟩
    | cancel next => exact performAlike left right h tidy _

omit left right in
theorem happenedAlike {v w : Wait} (waits : WaitsAlike a b v w) : b.hasHappened w = a.hasHappened v := by
  cases waits with
  | line next state => exact congrArg (· != .waiting) state
  | answer next state => exact congrArg (· != .waiting) state
  | same none =>
    cases v with
    | sleep due stopped next =>
      unfold Shell.hasHappened
      rw [h.clock]
    | line request next => cases none
    | answer request next => cases none
    | job watch next =>
      unfold Shell.hasHappened
      rw [h.jobs]
    | cancel next => rfl

theorem goOnAlike {v w : Wait} (waits : WaitsAlike a b v w) (tidy : Shell.WaitTidy v)
    (stands : Standing a c.session v) (standing : Standing b c.session w) (tie : Shell.Tie) :
    RunsAlike c d (Shell.goOn tie c v a) (Shell.goOn tie d w b) := by
  unfold Shell.goOn
  rw [happenedAlike h waits, h.cancelled]
  split
  · exact proceedAlike left right h waits tidy stands standing
  · exact proceedAlike left right h waits tidy stands standing
  · exact abortAlike left right h waits tidy stands standing
  · exact abortAlike left right h waits tidy stands standing
  · exact ⟨.waiting waits, h⟩

end Waits

end ConsoleShell.AlikeTurns
