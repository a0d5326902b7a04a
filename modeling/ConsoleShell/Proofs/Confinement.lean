import ConsoleShell.Proofs.JobHistory
import ConsoleShell.Proofs.RequestTurns
import ConsoleShell.Proofs.Sound

/-! What a command can reach while it runs. Of what sessions have each to themselves it touches only what
is its own session's. A command that runs as a job does not touch the console at all; and whatever a
command does to jobs, it makes none, and what it writes it writes in its own. -/
namespace ConsoleShell.Confinement
open Captured Printing
open Shell (Clean)

section Deeds

variable {κ : Type} {own : Option JobId} {i j k : Jobs κ}

def Allowed (own : Option JobId) : Deed κ → Prop
  | .print id _ _ | .update id _ _ | .delete id _ | .clearOutput id | .settle id _ _ => own = some id
  | .kill _ _ | .clearFinished => True
  | .create _ _ _ | .queue _ _ => False

def Works (own : Option JobId) (j k : Jobs κ) : Prop :=
  ∃ deeds : List (Deed κ), (∀ d ∈ deeds, Allowed own d) ∧ k = deeds.foldl Deed.run j

theorem Works.refl (j : Jobs κ) : Works own j j := ⟨[], fun _ mem => (nomatch mem), rfl⟩

theorem Works.trans (first : Works own i j) (second : Works own j k) : Works own i k := by
  obtain ⟨before, allowed, rfl⟩ := first
  obtain ⟨after, later, rfl⟩ := second
  refine ⟨before ++ after, fun d mem => ?_, by rw [List.foldl_append]⟩
  rcases List.mem_append.mp mem with earlier | new
  · exact allowed d earlier
  · exact later d new

theorem Works.deed (d : Deed κ) (allowed : Allowed own d) : Works own j (d.run j) := by
  refine ⟨[d], fun other mem => ?_, rfl⟩
  rw [List.mem_singleton.mp mem]
  exact allowed

/- A job stays the job that it was. What it came to stays, and what it wrote is touched by its own command
alone. -/
structure Keeps (own : Prop) (before after : Job) : Prop where
  session : after.session = before.session
  signal : after.signal = before.signal
  status : before.status.isFinal = true → after.status = before.status
  output : ¬ own → after.output = before.output
  error : ¬ own → after.error = before.error

theorem Keeps.refl (mine : Prop) (job : Job) : Keeps mine job job :=
  ⟨rfl, rfl, fun _ => rfl, fun _ => rfl, fun _ => rfl⟩

theorem Keeps.trans {mine : Prop} {first second third : Job} (near : Keeps mine first second)
    (far : Keeps mine second third) : Keeps mine first third where
  session := far.session.trans near.session
  signal := far.signal.trans near.signal
  status final := by
    have still : second.status.isFinal = true := (near.status final).symm ▸ final
    exact (far.status still).trans (near.status final)
  output other := (far.output other).trans (near.output other)
  error other := (far.error other).trans (near.error other)

theorem outputCases {α : Type} (j : Jobs κ) (id : JobId) (change : Buffer → α × Buffer) :
    (j.onOutput id change).2 = j ∨ ∃ job output, j.table.get? id = some job ∧
      (j.onOutput id change).2 = { j with table := j.table.insert id { job with output } } := by
  unfold Jobs.onOutput
  split
  · exact .inl rfl
  · rename_i found
    exact .inr ⟨_, _, found, rfl⟩

inductive Made (own : Option JobId) (j : Jobs κ) : Jobs κ → Prop where
  | same : Made own j j
  | set {id job new signals notices} (found : j.table.get? id = some job)
      (keeps : Keeps (own = some id) job new) (grown : Signals.Grown j.signals signals) :
      Made own j { j with table := j.table.insert id new, signals, notices }
  | cleared : Made own j j.clearFinished.2

theorem outputMade {α : Type} (j : Jobs κ) {id : JobId} (mine : own = some id)
    (change : Buffer → α × Buffer) : Made own j (j.onOutput id change).2 := by
  rcases outputCases j id change with same | ⟨job, output, found, same⟩
  · exact same.symm ▸ .same
  · rw [same]
    exact .set found ⟨rfl, rfl, fun _ => rfl, fun other => absurd mine other, fun _ => rfl⟩ (.refl _)

theorem deedMade {d : Deed κ} (allowed : Allowed own d) : Made own j (d.run j) := by
  cases d with
  | create | queue => exact allowed.elim
  | clearFinished => exact .cleared
  | print id kind text => exact outputMade j allowed fun b => b.print kind text
  | update id group text => exact outputMade j allowed fun b => b.update group text
  | delete id group => exact outputMade j allowed fun b => b.delete group
  | clearOutput id => exact outputMade j allowed fun b => ((), b.clear)
  | settle id result now =>
    change Made own j (j.settle id result now)
    rcases j.settleCases id result now with ⟨job, found, running, same⟩ | ⟨-, same⟩
    · rw [same]
      refine .set found ⟨rfl, rfl, fun final => ?_, ?_, ?_⟩ (.refl _)
      · simp [running] at final
      · exact fun _ => rfl
      · exact fun other => absurd allowed other
    · exact same.symm ▸ .same
  | kill id now =>
    change Made own j (j.kill id now).2.2
    rcases j.killCases id now with ⟨job, found, running, -, same⟩ | ⟨-, -, same⟩
    · rw [same]
      refine .set found ⟨rfl, rfl, fun final => ?_, ?_, ?_⟩ (Signals.grownFire _ _)
      · simp [running] at final
      · exact fun _ => rfl
      · exact fun _ => rfl
    · exact same.symm ▸ .same

structure Kept (own : Option JobId) (j k : Jobs κ) : Prop where
  sorted : k.table.Sorted
  jobs : ∀ id after, k.table.get? id = some after →
    ∃ before, j.table.get? id = some before ∧ Keeps (own = some id) before after
  signals : Signals.Grown j.signals k.signals

theorem Made.kept (made : Made own j k) (sorted : j.table.Sorted) : Kept own j k := by
  cases made with
  | same => exact ⟨sorted, fun id after there => ⟨after, there, .refl _ after⟩, .refl _⟩
  | @set id job new signals notices found keeps grown =>
    refine ⟨Dict.sortedInsert jobTrans jobTotal sorted _ _, fun other after there => ?_, grown⟩
    change (j.table.insert id new).get? other = some after at there
    rw [Dict.getInsert] at there
    split at there
    · rename_i same
      cases there
      exact ⟨job, same ▸ found, same ▸ keeps⟩
    · exact ⟨after, there, .refl _ after⟩
  | cleared =>
    refine ⟨Dict.sortedKeep sorted _, fun id after there => ⟨after, ?_, .refl _ after⟩, .refl _⟩
    exact ((Dict.foundKeep sorted jobStrict _).mp there).1

theorem Works.kept (works : Works own j k) (sorted : j.table.Sorted) : Kept own j k := by
  obtain ⟨deeds, allowed, rfl⟩ := works
  induction deeds generalizing j with
  | nil => exact Made.same.kept sorted
  | cons d rest ih =>
    obtain ⟨first, others⟩ := List.forall_mem_cons.mp allowed
    have near := (deedMade first : Made own j (d.run j)).kept sorted
    have far := ih near.sorted others
    refine ⟨far.sorted, fun id after there => ?_, near.signals.trans far.signals⟩
    obtain ⟨middle, found, later⟩ := far.jobs id after there
    obtain ⟨before, start, earlier⟩ := near.jobs id middle found
    exact ⟨before, start, earlier.trans later⟩

end Deeds

section Consoles

variable (c : Console) {session other : SessionId} (apart : other ≠ session)

include apart

theorem apartSet (b : Buffer) : (c.setBuffer session b).buffer? other = c.buffer? other := by
  unfold Console.setBuffer Console.buffer?
  rw [Dict.getInsert, if_neg apart]

theorem apartPush (kind : OutputKind) (lines : List Line) :
    (c.pushLines session kind lines).2.buffer? other = c.buffer? other := by
  unfold Console.pushLines
  split
  · rfl
  · exact apartSet c apart _

theorem apartUpdate (group : GroupId) (text : Text) :
    (c.update session group text).2.buffer? other = c.buffer? other := by
  unfold Console.update
  split
  · rfl
  · split
    · exact apartSet c apart _
    · rfl
    · rfl

theorem apartDelete (group : GroupId) :
    (c.delete session group).2.buffer? other = c.buffer? other := by
  unfold Console.delete
  split
  · rfl
  · split
    · exact apartSet c apart _
    · rfl

theorem apartClear : (c.clear session).buffer? other = c.buffer? other := by
  unfold Console.clear
  split
  · rfl
  · exact apartSet c apart _

theorem apartReplay (groups : List Group) :
    (groups.foldl (fun console g => (console.replay session g).2) c).buffer? other =
      c.buffer? other := by
  induction groups generalizing c with
  | nil => rfl
  | cons g rest ih => exact (ih _).trans (apartPush c apart g.kind g.lines)

end Consoles

structure Private (session : SessionId) (s t : Shell) : Prop where
  sessions : ∀ other, other ≠ session → t.sessions.get? other = s.sessions.get? other
  buffers : ∀ other, other ≠ session → t.console.buffer? other = s.console.buffer? other
  exits : ∀ other, other ≠ session → (other ∈ t.exits ↔ other ∈ s.exits)
  wall : t.wall = s.wall

structure Within (c : Invocation) (s t : Shell) : Prop extends Private c.session s t where
  background : c.origin.job? ≠ none → t.console = s.console ∧ t.outcomes = s.outcomes
  jobs : Works c.origin.job? s.jobs t.jobs
  taskCount : t.taskCount = s.taskCount

structure Confined (c : Invocation) (s t : Shell) : Prop extends Within c s t where
  requests : t.requests = s.requests
  tasks : t.tasks = s.tasks

variable {s t u : Shell} {c : Invocation} {session : SessionId}

theorem Private.refl (s : Shell) : Private session s s :=
  ⟨fun _ _ => rfl, fun _ _ => rfl, fun _ _ => Iff.rfl, rfl⟩

theorem Private.trans (first : Private session s t) (second : Private session t u) :
    Private session s u where
  sessions other apart := (second.sessions other apart).trans (first.sessions other apart)
  buffers other apart := (second.buffers other apart).trans (first.buffers other apart)
  exits other apart := (second.exits other apart).trans (first.exits other apart)
  wall := second.wall.trans first.wall

theorem Private.same (sessions : t.sessions = s.sessions) (console : t.console = s.console)
    (exits : t.exits = s.exits) (wall : t.wall = s.wall) : Private session s t :=
  ⟨fun _ _ => by rw [sessions], fun _ _ => by rw [console], fun _ _ => by rw [exits], wall⟩

theorem Within.refl (s : Shell) : Within c s s := ⟨.refl s, fun _ => ⟨rfl, rfl⟩, .refl _, rfl⟩

theorem Within.trans (first : Within c s t) (second : Within c t u) : Within c s u where
  toPrivate := first.toPrivate.trans second.toPrivate
  background job := by
    obtain ⟨console, outcomes⟩ := first.background job
    obtain ⟨again, still⟩ := second.background job
    exact ⟨again.trans console, still.trans outcomes⟩
  jobs := first.jobs.trans second.jobs
  taskCount := second.taskCount.trans first.taskCount

theorem Confined.refl (s : Shell) : Confined c s s := ⟨.refl s, rfl, rfl⟩

theorem Confined.trans (first : Confined c s t) (second : Confined c t u) : Confined c s u where
  toWithin := first.toWithin.trans second.toWithin
  requests := second.requests.trans first.requests
  tasks := second.tasks.trans first.tasks

theorem privateSession (s : Shell) (session : SessionId) (change : Session → Session) :
    Private session s (s.onSession session change) := by
  refine ⟨fun other apart => ?_, fun _ _ => rfl, fun _ _ => Iff.rfl, rfl⟩
  change (s.sessions.modify session change).get? other = s.sessions.get? other
  rw [Dict.getModify, if_neg apart]

theorem privateConsole (s : Shell) {console : Console}
    (buffers : ∀ other, other ≠ session → console.buffer? other = s.console.buffer? other) :
    Private session s { s with console } :=
  ⟨fun _ _ => rfl, buffers, fun _ _ => Iff.rfl, rfl⟩

theorem privatePrint (s : Shell) (session : SessionId) (kind : OutputKind) (text : Text) :
    Private session s (s.printAt session none kind text).2 :=
  privateConsole s fun _ apart => apartPush s.console apart kind _

theorem privateExits (s : Shell) {exits : List SessionId}
    (others : ∀ other, other ≠ session → (other ∈ exits ↔ other ∈ s.exits)) :
    Private session s { s with exits } :=
  ⟨fun _ _ => rfl, fun _ _ => rfl, others, rfl⟩

section Actions

variable (s : Shell) (c : Invocation)

theorem confinedPrivate (session : Private c.session s t) (outcomes : t.outcomes = s.outcomes)
    (console : t.console = s.console) (jobs : t.jobs = s.jobs) (count : t.taskCount = s.taskCount)
    (requests : t.requests = s.requests) (tasks : t.tasks = s.tasks) : Confined c s t :=
  ⟨⟨session, fun _ => ⟨console, outcomes⟩, jobs ▸ .refl _, count⟩, requests, tasks⟩

theorem confinedConsole (foreground : c.origin.job? = none) {console : Console}
    (buffers : ∀ other, other ≠ c.session → console.buffer? other = s.console.buffer? other) :
    Confined c s { s with console } :=
  ⟨⟨privateConsole s buffers, fun job => absurd foreground job, .refl _, rfl⟩, rfl, rfl⟩

theorem confinedDeed (d : Deed Echo) (allowed : Allowed c.origin.job? d) :
    Confined c s { s with jobs := d.run s.jobs } :=
  ⟨⟨.same rfl rfl rfl rfl, fun _ => ⟨rfl, rfl⟩, .deed d allowed, rfl⟩, rfl, rfl⟩

theorem confinedShared (registry : Registry Handler) (godMode : Bool) (dice : Nat → Nat) :
    Confined c s { s with registry, godMode, dice } :=
  confinedPrivate s c (.same rfl rfl rfl rfl) rfl rfl rfl rfl rfl rfl

theorem confinedWake : Confined c s s.wake :=
  confinedPrivate s c (.same rfl rfl rfl rfl) rfl rfl rfl rfl rfl rfl

theorem confinedPrint (kind : OutputKind) (text : Text) : Confined c s (s.print c kind text).2 := by
  unfold Shell.print Shell.printAt
  cases place : c.origin.job? with
  | none => exact confinedConsole s c place fun _ apart => apartPush s.console apart kind _
  | some id => exact confinedDeed s c (.print id kind text) place

theorem confinedUpdate (group : GroupId) (text : Text) : Confined c s (s.update c group text).2 := by
  unfold Shell.update
  cases place : c.origin.job? with
  | none => exact confinedConsole s c place fun _ apart => apartUpdate s.console apart group text
  | some id => exact confinedDeed s c (.update id group text) place

theorem confinedDelete (group : GroupId) : Confined c s (s.delete c group).2 := by
  unfold Shell.delete
  cases place : c.origin.job? with
  | none => exact confinedConsole s c place fun _ apart => apartDelete s.console apart group
  | some id => exact confinedDeed s c (.delete id group) place

theorem confinedClear : Confined c s (s.clear c) := by
  unfold Shell.clear
  cases place : c.origin.job? with
  | none => exact confinedConsole s c place fun _ apart => apartClear s.console apart
  | some id => exact confinedDeed s c (.clearOutput id) place

theorem confinedReplay (groups : List Group) : Confined c s (s.replay c groups) := by
  unfold Shell.replay
  cases place : c.origin.job? with
  | none => exact confinedConsole s c place fun _ apart => apartReplay s.console apart groups
  | some id => exact .refl s

theorem confinedKill (h : Clean s) (id : JobId) : Confined c s (s.killJob id).2 := by
  unfold Shell.killJob
  dsimp only
  rw [(silentKill h.signals id s.wall).1]
  exact (confinedDeed s c (.kill id s.wall) trivial).trans (confinedWake _ c)

theorem confinedRoll (sides : Nat) : Confined c s (s.roll sides).2 := by
  unfold Shell.roll
  exact confinedShared s c s.registry s.godMode _

theorem confinedChange (what : Change) : Confined c s (s.change c.session what) := by
  cases what with
  | setVariable | unsetVariable | setEnvironment | unsetEnvironment | clearHistory =>
    exact confinedPrivate s c (privateSession s c.session _) rfl rfl rfl rfl rfl rfl
  | setAlias | removeAlias | setGodMode => exact confinedShared s c _ _ s.dice
  | clearFinishedJobs => exact confinedDeed s c .clearFinished trivial
  | requestExit =>
    change Confined c s (s.requestExit c.session)
    unfold Shell.requestExit
    split
    · exact .refl s
    · have others (other : SessionId) (apart : other ≠ c.session) :
          other ∈ c.session :: s.exits ↔ other ∈ s.exits := by simp [apart]
      exact confinedPrivate s c (privateExits s others) rfl rfl rfl rfl rfl rfl

end Actions

def request? : Wait → Option RequestId
  | .line request _ | .answer request _ => some request
  | _ => none

def haltRequest? : Halt → Option RequestId
  | .waiting wait => request? wait
  | _ => none

/- A command comes to its halt, and at most asks for a line at the very end. -/
inductive Performed (c : Invocation) (s : Shell) : Halt × Shell → Prop where
  | idle {halt t} (confined : Confined c s t) (endless : haltRequest? halt = none) :
      Performed c s (halt, t)
  | asks {u request wait t} (confined : Confined c s u)
      (granted : u.awaitLine c = (.ok request, t)) (waits : request? wait = some request) :
      Performed c s (.waiting wait, t)

theorem Performed.after {run : Halt × Shell} (first : Confined c s t) (later : Performed c t run) :
    Performed c s run := by
  cases later with
  | idle confined none => exact .idle (first.trans confined) none
  | asks confined granted waits => exact .asks (first.trans confined) granted waits

theorem refusedSame {failure : Failure} (refused : s.awaitLine c = (.error failure, t)) : t = s := by
  unfold Shell.awaitLine at refused
  split at refused
  · exact (congrArg Prod.snd refused).symm
  · split at refused
    · exact (congrArg Prod.snd refused).symm
    · cases refused

theorem performedAsked (s : Shell) (c : Invocation) {wait : RequestId → Wait}
    (waits : ∀ request, request? (wait request) = some request) :
    Performed c s (match s.awaitLine c with
      | (.ok request, s) => (.waiting (wait request), s)
      | (.error failure, s) => (.ended (.failed failure), s)) := by
  split
  · rename_i granted
    exact .asks (.refl s) granted (waits _)
  · rename_i refused
    rw [refusedSame refused]
    exact .idle (.refl s) rfl

theorem performed (h : Clean s) {p : Program} (tidy : Tidy p) (left : Nat) :
    Performed c s (Shell.perform c left p s) := by
  induction p generalizing left s with
  | finish | fail | crash => exact .idle (.refl s) rfl
  | print kind text next ih =>
    exact .after (confinedPrint s c kind text) (ih _ (Shell.cleanPrint h c kind tidy.1) (tidy.2 _) _)
  | update group text next ih =>
    exact .after (confinedUpdate s c group text)
      (ih _ (Shell.cleanUpdate h c group tidy.1) (tidy.2 _) _)
  | delete group next ih =>
    exact .after (confinedDelete s c group) (ih _ (Shell.cleanDelete h c group) (tidy _) _)
  | clear next ih => exact .after (confinedClear s c) (ih (Shell.cleanClear h c) tidy _)
  | replay groups next ih =>
    exact .after (confinedReplay s c groups) (ih (Shell.cleanReplay h c tidy.1) tidy.2 _)
  | inspect next ih => exact ih _ h (tidy (s.view c) (jobsListed h.jobs false)) _
  | change what next ih =>
    exact .after (confinedChange s c what) (ih (Shell.cleanChange h c.session what) tidy _)
  | kill job next ih =>
    exact .after (confinedKill s c h job) (ih _ (Shell.cleanKill h job) (tidy _) _)
  | roll sides next ih =>
    have rolled := confinedRoll s c sides
    have clean := Shell.cleanRoll h sides
    unfold Shell.perform
    generalize s.roll sides = roll at rolled clean ⊢
    exact .after rolled (ih _ clean (tidy _) _)
  | onCancel text next ih => exact tidy.elim
  | sleep span stopped next stoppedIh nextIh =>
    unfold Shell.perform
    split
    · exact stoppedIh h tidy.1 _
    · split
      · exact .idle (.refl s) rfl
      · split
        · exact nextIh h tidy.2 _
        · exact .idle (.refl s) rfl
  | readLine next ih => exact performedAsked s c fun _ => rfl
  | confirm message next ih =>
    exact .after (confinedPrint s c .output (Shell.question message)) (performedAsked _ c fun _ => rfl)
  | awaitJob job next ih =>
    unfold Shell.perform
    split
    · rename_i seen
      exact ih _ h (tidy _ (jobsWatched h.jobs seen)) _
    · exact .idle (.refl s) rfl
    · split <;> exact .idle (.refl s) rfl
  | awaitCancel next ih =>
    unfold Shell.perform
    split
    · exact ih h tidy _
    · exact .idle (.refl s) rfl

inductive GoesOn (c : Invocation) (wait : Wait) (s : Shell) : Halt × Shell → Prop where
  | stays : GoesOn c wait s (.waiting wait, s)
  | free {run} (unasked : request? wait = none) (performed : Performed c s run) : GoesOn c wait s run
  | looks {request m run} (waited : request? wait = some request)
      (look : m = .poll request ∨ m = .drop request)
      (performed : Performed c { s with requests := RequestMove.run s.requests m } run) :
      GoesOn c wait s run

theorem goesOnLine (h : Clean s) {wait : Wait} {request : RequestId}
    (waited : request? wait = some request) {next : Text → Shell → Halt × Shell}
    (goes : ∀ text t, Clean t → Performed c t (next text t)) :
    GoesOn c wait s (Shell.takeLine request s next) := by
  unfold Shell.takeLine
  split
  · rename_i text requests found
    have polled : requests = RequestMove.run s.requests (.poll request) := by
      change _ = (s.requests.poll request).2
      rw [found]
    refine .looks waited (.inl rfl) ?_
    rw [← polled]
    exact goes _ _ (h.same rfl rfl rfl)
  · rename_i error requests found
    have polled : requests = RequestMove.run s.requests (.poll request) := by
      change _ = (s.requests.poll request).2
      rw [found]
    refine .looks waited (.inl rfl) ?_
    rw [← polled]
    exact .idle (.refl _) rfl
  · exact .looks waited (.inr rfl) (.idle (.refl _) rfl)

theorem goesOnProceed (h : Clean s) {wait : Wait} (tidy : Shell.WaitTidy wait) :
    GoesOn c wait s (Shell.proceed c s wait) := by
  cases wait with
  | sleep due stopped next => exact .free rfl (performed h tidy.2 _)
  | line request next =>
    have waited : request? (.line request next) = some request := rfl
    exact goesOnLine h waited fun text t clean => performed clean (tidy text) _
  | answer request next =>
    have waited : request? (.answer request next) = some request := rfl
    unfold Shell.proceed
    refine goesOnLine h waited fun text t clean => ?_
    split
    · exact performed clean (tidy true) _
    · exact performed clean (tidy false) _
    · exact .after (confinedPrint t c .output Shell.askAgain) (performedAsked _ c fun _ => rfl)
  | job watch next =>
    have again : Tidy (.awaitJob watch.job next) := tidy
    exact .free rfl (performed h again _)
  | cancel next => exact .free rfl (performed h tidy _)

theorem goesOnAbort (h : Clean s) {wait : Wait} (tidy : Shell.WaitTidy wait) :
    GoesOn c wait s (Shell.abort c s wait) := by
  cases wait with
  | sleep due stopped next => exact .free rfl (performed h tidy.1 _)
  | line request next => exact .looks rfl (.inr rfl) (.idle (.refl _) rfl)
  | answer request next => exact .looks rfl (.inr rfl) (.idle (.refl _) rfl)
  | job watch next => exact .free rfl (.idle (.refl s) rfl)
  | cancel next => exact .free rfl (performed h tidy _)

theorem goesOn (h : Clean s) {wait : Wait} (tidy : Shell.WaitTidy wait) (tie : Shell.Tie) :
    GoesOn c wait s (Shell.goOn tie c wait s) := by
  unfold Shell.goOn
  split
  · exact goesOnProceed h tidy
  · exact goesOnProceed h tidy
  · exact goesOnAbort h tidy
  · exact goesOnAbort h tidy
  · exact .stays

theorem confinedSettle (s : Shell) {id : JobId} (own : c.origin.job? = some id) (result : JobResult) :
    Confined c s (s.settleJob id result) :=
  (confinedDeed s c (.settle id result s.wall) own).trans (confinedWake _ c)

theorem confinedFinish (s : Shell) (scope : Scope) : Confined c s (s.finishScope c.session scope) :=
  confinedPrivate s c (.same rfl rfl rfl rfl) rfl rfl rfl rfl rfl rfl

theorem confinedConclude (s : Shell) (id : TaskId) (outcome : Outcome) :
    Confined c s (s.conclude id c.session c.origin outcome) := by
  unfold Shell.conclude
  cases place : c.origin with
  | foreground scope =>
    have foreground : c.origin.job? = none := by rw [place]; rfl
    have ended (t : Shell) : Confined c t ((t.finishScope c.session scope).recordOutcome id outcome) :=
      ⟨⟨.same rfl rfl rfl rfl, fun job => absurd foreground job, .refl _, rfl⟩, rfl, rfl⟩
    dsimp only
    split
    · rename_i error
      have told : Confined c s (s.printAt c.session none .error (Markup.escape error.message)).2 :=
        confinedConsole s c foreground fun _ apart => apartPush s.console apart .error _
      exact told.trans (ended _)
    · exact ended s
  | job job signal =>
    have own : c.origin.job? = some job := by rw [place]; rfl
    dsimp only
    split
    · exact confinedSettle s own _
    · exact .refl s

def remains (id : TaskId) (c : Invocation) : Halt → List (TaskId × Shell.Task)
  | .waiting wait => [(id, .waiting c wait)]
  | .yielded rest => [(id, .program c rest)]
  | .ended _ => []

structure Left (id : TaskId) (c : Invocation) (run : Halt × Shell) (t : Shell) : Prop
    extends Within c run.2 t where
  requests : t.requests = run.2.requests
  tasks : t.tasks = run.2.tasks ++ remains id c run.1

theorem leftEnded {id : TaskId} {ending : Ending} (confined : Confined c s t) :
    Left id c (.ended ending, s) t :=
  ⟨confined.toWithin, confined.requests, confined.tasks.trans (List.append_nil _).symm⟩

theorem left (id : TaskId) (run : Halt × Shell) : Left id c run (Shell.leave id c run) := by
  obtain ⟨halt, s⟩ := run
  unfold Shell.leave
  cases halt with
  | waiting wait => exact ⟨⟨.same rfl rfl rfl rfl, fun _ => ⟨rfl, rfl⟩, .refl _, rfl⟩, rfl, rfl⟩
  | yielded rest => exact ⟨⟨.same rfl rfl rfl rfl, fun _ => ⟨rfl, rfl⟩, .refl _, rfl⟩, rfl, rfl⟩
  | ended ending =>
    dsimp only
    split
    · exact leftEnded (confinedConclude s id _)
    · rename_i place
      split
      · exact leftEnded (confinedSettle s (by rw [place]; rfl) _)
      · exact leftEnded (.refl s)
    · exact leftEnded (confinedFinish s _)

end ConsoleShell.Confinement
