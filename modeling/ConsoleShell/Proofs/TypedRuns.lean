import ConsoleShell.Proofs.Histories
import ConsoleShell.Proofs.LineWaiting

/-! Runs with their events. Calls from outside come when nothing can move any more; between them tasks have
their turns in any order, and time passes. What happens to histories is told by few events: a session is
opened, a line is dispatched, or all lines are forgotten. Of all lines at most one has not begun, and but for
that one a session has kept the last of those that were dispatched to it since they were forgotten. -/
namespace ConsoleShell.TypedRuns
open Histories
open LineWaiting
open Shell (Reachable Step)

inductive External where
  | openSession
  | closeSession (session : SessionId)
  | input (session : SessionId) (line : Text)
  | execute (session : SessionId) (line : Text) (piped : Option (List Text))
  | cancel (session : SessionId)
  | createJob (session : SessionId) (line : Text)
  | killJob (id : JobId)
  | clearFinished
  | watchJob (id : JobId)
  | setStore (session : SessionId) (store : Variables)
  | setAliases (aliases : Dict Text Text)
  | takeExit (session : SessionId)
  | resetState
  | subscribe
  | takeEvents

def External.run (s : Shell) : External → Shell
  | openSession => s.openSession.2
  | closeSession session => s.closeSession session
  | input session line => (s.handleInput session line).2
  | execute session line piped => (s.execute session line piped).2
  | cancel session => (s.cancel session).2
  | createJob session line => (s.createJob session line).2
  | killJob id => (s.killJob id).2
  | clearFinished => { s with jobs := s.jobs.clearFinished.2 }
  | watchJob id => (s.watchJob id).2
  | setStore session store => s.onStore session fun _ => store
  | setAliases aliases => { s with registry := { s.registry with aliases } }
  | takeExit session => (s.takeExit session).2
  | resetState => s.resetState
  | subscribe => s.subscribe
  | takeEvents => s.takeEvents.2

theorem externalStep (s : Shell) (call : External) : Step s (call.run s) := by
  cases call <;> constructor

inductive Event where
  | opened (session : SessionId)
  | dispatched (session : SessionId) (line : Text)
  | forgotten (session : SessionId)
  deriving DecidableEq

def External.events (s : Shell) : External → List Event
  | openSession => [.opened s.openSession.1]
  | input session line =>
    if (s.handleInput session line).1 = .consumed then [] else [.dispatched session line]
  | execute session line _ => [.dispatched session line]
  | _ => []

def turnEvents (s : Shell) (id : TaskId) : List Event :=
  (((s.tasks.lookup id).bind (forgotten? s)).map Event.forgotten).toList

inductive Run : Shell → List Event → Prop where
  | start {config s} (made : Shell.ofDeclarations config Builtin.all = .ok s) : Run s []
  | call {s log} (before : Run s log) (still : Still s) (call : External) :
      Run (call.run s) (log ++ call.events s)
  | turn {s log} (before : Run s log) (tie : Shell.Tie) (id : TaskId) :
      Run (s.resume tie id) (log ++ turnEvents s id)
  | pass {s log} (before : Run s log) (clock wall : Nat) (dice : Nat → Nat) :
      Run (Shell.wake { s with clock, wall, dice }) log
  | schedule {s log} (before : Run s log) (ready aside : List TaskId) (turnCount : Nat) :
      Run { s with ready, aside, turnCount } log

def hear (session : SessionId) (lines : List Text) : Event → List Text
  | .opened other | .forgotten other => if other = session then [] else lines
  | .dispatched other line =>
    if other = session ∧ Text.trim line ≠ [] then lines ++ [Text.trim line] else lines

def typed (session : SessionId) (log : List Event) : List Text := log.foldl (hear session) []

variable {s t : Shell} {log : List Event} {id : TaskId} {task : Shell.Task} {tie : Shell.Tie}
  {session : SessionId}

theorem runReachable (run : Run s log) : Reachable s := by
  induction run with
  | start made => exact .start made
  | call before still call ih => exact ih.step (externalStep _ call)
  | turn before tie id ih => exact ih.step (.resume _ tie id)
  | pass before clock wall dice ih => exact ih.step (.pass _ clock wall dice)
  | schedule before ready aside turnCount ih => exact ih.step (.schedule _ ready aside turnCount)

theorem runTurn (run : Run s log) : ∃ more, Run s.step (log ++ more) := by
  have taken : ∃ more, Run s.takeTurn (log ++ more) := by
    unfold Shell.takeTurn
    split
    · exact ⟨[], by rwa [List.append_nil]⟩
    · exact ⟨_, .turn (.schedule run s.ready s.aside (s.turnCount + 1)) .event _⟩
  obtain ⟨more, run⟩ := taken
  refine ⟨more, ?_⟩
  unfold Shell.step
  dsimp only
  split
  · exact .schedule run _ _ _
  · exact run

theorem runSteps (run : Run s log) (n : Nat) : ∃ more, Run (Shell.steps n s) (log ++ more) := by
  induction n generalizing s log with
  | zero => exact ⟨[], by rwa [List.append_nil]⟩
  | succ n ih =>
    unfold Shell.steps
    split
    · exact ⟨[], by rwa [List.append_nil]⟩
    · obtain ⟨first, stepped⟩ := runTurn run
      obtain ⟨more, later⟩ := ih stepped
      exact ⟨first ++ more, by rwa [← List.append_assoc]⟩

theorem runSettle (run : Run s log) : ∃ more, Run s.settle (log ++ more) :=
  runSteps (.schedule run s.ready s.aside 0) _

def isLine : Shell.Task → Bool
  | .line .. => true
  | _ => false

def isUnbegun : Shell.Task → Bool
  | .line .. | .job .. => true
  | _ => false

def unbegun (s : Shell) : List (TaskId × Shell.Task) := s.tasks.filter fun e => isUnbegun e.2

def due (s : Shell) (session : SessionId) : List Text := s.tasks.filterMap fun e => due? session e.2

theorem notLineDue (other : isLine task = false) (session : SessionId) : due? session task = none := by
  cases task <;> first | rfl | cases other

theorem begunNotLine (begun : isUnbegun task = false) : isLine task = false := by
  cases task <;> first | rfl | cases begun

theorem begunDue (begun : isUnbegun task = false) (session : SessionId) : due? session task = none :=
  notLineDue (begunNotLine begun) session

theorem begunForgets (begun : isUnbegun task = false) : forgotten? s task = none := by
  cases task <;> first | rfl | cases begun

theorem dueUnbegun (s : Shell) (session : SessionId) :
    due s session = (unbegun s).filterMap fun e => due? session e.2 := by
  unfold due unbegun
  rw [List.filterMap_filter]
  refine congrArg (List.filterMap · s.tasks) (funext fun e => ?_)
  cases begun : isUnbegun e.2 with
  | true => rfl
  | false => exact begunDue begun session

theorem stillBegun (still : Still s) : unbegun s = [] := by
  refine List.filter_eq_nil_iff.mpr fun ⟨id, task⟩ mem => ?_
  have rests := still _ mem
  cases task <;> first | cases rests | exact Bool.false_ne_true

theorem stillDue (still : Still s) (session : SessionId) : due s session = [] := by
  rw [dueUnbegun, stillBegun still]
  rfl

/- What a turn makes of the tasks. A line leaves a job at most, and nothing else that has not begun; and
whoever has begun leaves nothing that has not. -/
inductive TurnTasks (s : Shell) (id : TaskId) (task : Shell.Task) (t : Shell) : Prop where
  | stays (begun : isUnbegun task = false) (tasks : t.tasks = s.tasks)
  | leaves {later} (tasks : t.tasks = (s.withdraw id).tasks ++ later)
      (lines : ∀ e ∈ later, isLine e.2 = false)
      (few : isUnbegun task = true ∧ later.length ≤ 1 ∨ ∀ e ∈ later, isUnbegun e.2 = false)

theorem turnTasks (stands : s.tasks.lookup id = some task) (tie : Shell.Tie) :
    TurnTasks s id task (s.resume tie id) := by
  have resumed := Shell.resumeResumed tie s id
  generalize s.resume tie id = t at resumed
  have nothing (tasks : t.tasks = (s.withdraw id).tasks) : TurnTasks s id task t :=
    .leaves (tasks.trans (List.append_nil _).symm) (List.forall_mem_nil _) (.inr (List.forall_mem_nil _))
  have one {e : TaskId × Shell.Task} (tasks : t.tasks = (s.withdraw id).tasks ++ [e])
      (begun : isUnbegun e.2 = false) : TurnTasks s id task t := by
    refine .leaves tasks (fun other mem => ?_) (.inr fun other mem => ?_)
    · exact List.mem_singleton.mp mem ▸ begunNotLine begun
    · exact List.mem_singleton.mp mem ▸ begun
  cases resumed with
  | absent none => cases stands.symm.trans none
  | stuck there still =>
    cases stands.symm.trans there
    refine .stays ?_ rfl
    cases task <;> first | rfl | cases still
  | @watches watch there =>
    rcases Actions.lookedTasks (s.withdraw id) id watch.job with tasks | ⟨later, tasks⟩
    · exact nothing tasks
    · exact one tasks rfl
  | noted there done tasks jobs => exact nothing tasks
  | starts there done tasks jobs =>
    cases stands.symm.trans there
    exact .leaves tasks (fun e mem => List.mem_singleton.mp mem ▸ rfl) (.inl ⟨rfl, Nat.le_refl 1⟩)
  | @refused session origin line piped u error begins read =>
    have concluded := Confinement.confinedConclude (c := ⟨session, origin, none⟩) u id (.failed error)
    exact nothing (concluded.tasks.trans begins.kept.tasks)
  | @wordless session origin line piped u begins read =>
    have concluded := Confinement.confinedConclude (c := ⟨session, origin, none⟩) u id .ok
    exact nothing (concluded.tasks.trans begins.kept.tasks)
  | @ran c run runs =>
    have tasks := (Confinement.left id (c := c) run).tasks
    rw [runs.kept.tasks] at tasks
    cases halt : run.1 with
    | waiting wait =>
      rw [halt] at tasks
      exact one tasks rfl
    | yielded rest =>
      rw [halt] at tasks
      exact one tasks rfl
    | ended ending =>
      rw [halt] at tasks
      exact nothing (tasks.trans (List.append_nil _))

/- Of all that has not begun there is one at most. What a session has kept is the last of the lines that it
should have kept, but for the one that it is yet to keep. -/
structure Booked (s : Shell) (log : List Event) : Prop where
  one : (unbegun s).length ≤ 1
  kept : ∀ session lines, history? s session = some lines →
    ∃ written, typed session log = written ++ due s session ∧ lines = lastOf s.config.historyLimit written

theorem typedAppend (session : SessionId) (log more : List Event) :
    typed session (log ++ more) = more.foldl (hear session) (typed session log) := List.foldl_append

theorem dueAppend {later : List (TaskId × Shell.Task)} (tasks : t.tasks = s.tasks ++ later)
    (session : SessionId) :
    due t session = due s session ++ later.filterMap fun e => due? session e.2 := by
  unfold due
  rw [tasks, List.filterMap_append]

theorem unbegunAppend {later : List (TaskId × Shell.Task)} (tasks : t.tasks = s.tasks ++ later) :
    unbegun t = unbegun s ++ later.filter fun e => isUnbegun e.2 := by
  unfold unbegun
  rw [tasks, List.filter_append]

theorem noneDue {later : List (TaskId × Shell.Task)} (lines : ∀ e ∈ later, isLine e.2 = false)
    (session : SessionId) : (later.filterMap fun e => due? session e.2) = [] :=
  List.filterMap_eq_nil_iff.mpr fun e mem => notLineDue (lines e mem) session

inductive Seen (s t : Shell) : List Event → Prop where
  | opens {opened : SessionId} (tasks : t.tasks = s.tasks) (histories : ∀ other,
      history? t other = if other = opened then some [] else history? s other) :
      Seen s t [.opened opened]
  | dispatches {id : TaskId} {owner : SessionId} {line : Text} {piped : Option (List Text)}
      (tasks : t.tasks = s.tasks ++ [(id, .line owner line piped)]) (same : SameHistories s t) :
      Seen s t [.dispatched owner line]
  | other {later} (tasks : t.tasks = s.tasks ++ later) (few : later.length ≤ 1)
      (lines : ∀ e ∈ later, isLine e.2 = false)
      (kept : ∀ session lines, history? t session = some lines → history? s session = some lines) :
      Seen s t []

theorem seenBooked (still : Still s) (booked : Booked s log) {events : List Event}
    (config : t.config = s.config) (seen : Seen s t events) : Booked t (log ++ events) := by
  have few {later : List (TaskId × Shell.Task)} (tasks : t.tasks = s.tasks ++ later)
      (one : later.length ≤ 1) : (unbegun t).length ≤ 1 := by
    rw [unbegunAppend tasks, stillBegun still, List.nil_append]
    exact Nat.le_trans (List.length_filter_le _ _) one
  cases seen with
  | @opens opened tasks histories =>
    have same := tasks.trans (List.append_nil _).symm
    refine ⟨few same (Nat.zero_le 1), fun session lines there => ?_⟩
    rw [histories] at there
    rw [typedAppend, dueAppend same, stillDue still]
    by_cases own : session = opened
    · rw [if_pos own] at there
      cases there
      exact ⟨[], by simp [hear, own], by simp [lastOf]⟩
    · rw [if_neg own] at there
      obtain ⟨written, all, last⟩ := booked.kept session lines there
      rw [stillDue still] at all
      exact ⟨written, by simpa [hear, Ne.symm own] using all, config ▸ last⟩
  | @dispatches id owner line piped tasks same =>
    refine ⟨few tasks (Nat.le_refl 1), fun session lines there => ?_⟩
    rw [same.histories, Option.map_id'] at there
    obtain ⟨written, all, last⟩ := booked.kept session lines there
    refine ⟨written, ?_, config ▸ last⟩
    rw [stillDue still, List.append_nil] at all
    rw [typedAppend, dueAppend tasks, stillDue still, all]
    by_cases own : owner = session ∧ Text.trim line ≠ [] <;> simp [hear, due?, own]
  | @other later tasks one lines kept =>
    refine ⟨few tasks one, fun session history there => ?_⟩
    obtain ⟨written, all, last⟩ := booked.kept session history (kept session history there)
    refine ⟨written, ?_, config ▸ last⟩
    rw [List.append_nil, dueAppend tasks, noneDue lines, List.append_nil, all]

theorem withdrawnUnbegun (s : Shell) (id : TaskId) :
    unbegun (s.withdraw id) = (unbegun s).filter fun e => !decide (e.1 = id) := by
  unfold unbegun Shell.withdraw
  simp only [List.filter_filter, Bool.and_comm]

theorem withdrawnSame (apart : ∀ e ∈ unbegun s, e.1 ≠ id) : unbegun (s.withdraw id) = unbegun s := by
  rw [withdrawnUnbegun]
  exact List.filter_eq_self.mpr fun e mem => by simp [apart e mem]

theorem withdrawnAlone (one : (unbegun s).length ≤ 1) (mem : (id, task) ∈ unbegun s) :
    unbegun s = [(id, task)] ∧ unbegun (s.withdraw id) = [] := by
  have alone : unbegun s = [(id, task)] := by
    cases listed : unbegun s with
    | nil =>
      rw [listed] at mem
      cases mem
    | cons first rest =>
      rw [listed, List.length_cons] at one
      have nobody := List.eq_nil_of_length_eq_zero (Nat.le_zero.mp (Nat.le_of_succ_le_succ one))
      rw [listed, nobody] at mem
      rw [nobody, List.mem_singleton.mp mem]
  exact ⟨alone, by simp [withdrawnUnbegun, alone]⟩

theorem bookedSame (booked : Booked s log) (tasks : unbegun t = unbegun s) (same : SameHistories s t) :
    Booked t log := by
  refine ⟨tasks.symm ▸ booked.one, fun session lines there => ?_⟩
  rw [same.histories, Option.map_id'] at there
  rw [dueUnbegun, tasks, ← dueUnbegun, same.config]
  exact booked.kept session lines there

theorem begunBooked (h : Reachable s) (booked : Booked s log) (stands : s.tasks.lookup id = some task)
    (begun : isUnbegun task = false) (turn : TurnTasks s id task t) (same : SameHistories s t) :
    Booked t log := by
  refine bookedSame booked ?_ same
  cases turn with
  | stays begun tasks => exact congrArg (List.filter _) tasks
  | @leaves later tasks lines few =>
    have others : ∀ e ∈ unbegun s, e.1 ≠ id := by
      intro e mem own
      obtain ⟨listed, fresh⟩ := List.mem_filter.mp mem
      have same := FiredScopes.taskFound h (show (id, e.2) ∈ s.tasks from own ▸ listed)
      cases stands.symm.trans same
      exact Bool.false_ne_true (begun.symm.trans fresh)
    have nothing : (later.filter fun e => isUnbegun e.2) = [] := by
      refine List.filter_eq_nil_iff.mpr fun e mem fresh => ?_
      rcases few with ⟨other, -⟩ | begun
      · exact Bool.false_ne_true (begun.symm.trans other)
      · exact Bool.false_ne_true ((begun e mem).symm.trans fresh)
    rw [unbegunAppend tasks, nothing, List.append_nil, withdrawnSame others]

theorem unbegunBooked (booked : Booked s log) (stands : s.tasks.lookup id = some task)
    (fresh : isUnbegun task = true) (turn : TurnTasks s id task t) (written : Rewritten (kept s task) s t) :
    Booked t (log ++ ((forgotten? s task).map Event.forgotten).toList) := by
  obtain ⟨alone, rest⟩ := withdrawnAlone booked.one (List.mem_filter.mpr ⟨Shell.lookedUp stands, fresh⟩)
  cases turn with
  | stays begun tasks => cases begun.symm.trans fresh
  | @leaves later tasks lines few =>
    have nobody (session) : due t session = [] := by
      rw [dueAppend tasks, dueUnbegun, rest, noneDue lines]
      rfl
    refine ⟨?_, fun session lines there => ?_⟩
    · rw [unbegunAppend tasks, rest, List.nil_append]
      rcases few with ⟨-, one⟩ | begun
      · exact Nat.le_trans (List.length_filter_le _ _) one
      · rw [List.filter_eq_nil_iff.mpr fun e mem fresh => Bool.false_ne_true ((begun e mem).symm.trans fresh)]
        exact Nat.zero_le 1
    · rw [written.histories] at there
      obtain ⟨before, found, rfl⟩ := Option.map_eq_some_iff.mp there
      obtain ⟨old, all, rfl⟩ := booked.kept session before found
      rw [dueUnbegun, alone] at all
      rw [typedAppend, nobody, written.config]
      by_cases forgets : forgotten? s task = some session
      · exact ⟨[], by simp [forgets, hear], by simp [kept, forgets, lastOf]⟩
      · have heard : ((forgotten? s task).map Event.forgotten).toList.foldl (hear session)
            (typed session log) = typed session log := by
          cases forgotten : forgotten? s task with
          | none => rfl
          | some other =>
            have apart : other ≠ session := fun same => forgets (same ▸ forgotten)
            simp [hear, apart]
        rw [heard, all]
        cases own : due? session task with
        | none => exact ⟨old, by simp [own], by simp [kept, forgets, own]⟩
        | some line => exact ⟨old ++ [line], by simp [own], by simp [kept, forgets, own, lastOfAppend]⟩

theorem turnBooked (h : Reachable s) (booked : Booked s log) (tie : Shell.Tie) (id : TaskId) :
    Booked (s.resume tie id) (log ++ turnEvents s id) := by
  unfold turnEvents
  cases stands : s.tasks.lookup id with
  | none =>
    have absent : s.resume tie id = s.withdraw id := by
      unfold Shell.resume
      rw [stands]
    have others : ∀ e ∈ unbegun s, e.1 ≠ id := fun e mem own => by
      simpa [own] using List.lookup_eq_none_iff.mp stands e (List.mem_filter.mp mem).1
    rw [absent, Option.bind_none, Option.map_none, Option.toList_none, List.append_nil]
    exact bookedSame booked (withdrawnSame others) (sameWithdraw s id)
  | some task =>
    have turn := turnTasks stands tie
    have written := turnWrites h stands tie
    rw [Option.bind_some]
    cases begun : isUnbegun task with
    | true => exact unbegunBooked booked stands begun turn written
    | false =>
      rw [begunForgets begun, Option.map_none, Option.toList_none, List.append_nil]
      refine begunBooked h booked stands begun turn (written.as fun session lines => ?_)
      exact (keptSame (begunForgets begun) (begunDue begun) session lines).symm

theorem inputTaken (line : Text) (pending : s.requests.hasPending session = true) :
    ∃ ready, s.handleInput session line =
      (.consumed, { s with requests := (s.requests.deliver session line).2, ready }) := by
  have taken := (LineKeeping.deliverTaken s.requests session line).trans pending
  unfold Shell.handleInput
  dsimp only
  rw [if_pos taken]
  exact ⟨_, rfl⟩

theorem inputDispatched (line : Text) (free : s.requests.hasPending session = false) :
    ∃ ready, s.handleInput session line = (.dispatched ⟨s.taskCount⟩, { s with
      requests := (s.requests.deliver session line).2
      tasks := s.tasks ++ [(⟨s.taskCount⟩, .line session line none)]
      taskCount := s.taskCount + 1
      ready }) := by
  have refused := (LineKeeping.deliverTaken s.requests session line).trans free
  unfold Shell.handleInput
  dsimp only
  rw [if_neg (by simp [refused])]
  exact ⟨_, rfl⟩

theorem seenQuiet (tasks : t.tasks = s.tasks) (same : SameHistories s t) : Seen s t [] := by
  refine .other (tasks.trans (List.append_nil _).symm) (Nat.zero_le 1) (List.forall_mem_nil _)
    fun session lines there => ?_
  rwa [same.histories, Option.map_id'] at there

theorem seenTask (tasks : t.tasks = s.tasks ++ [(id, task)]) (other : isLine task = false)
    (same : SameHistories s t) : Seen s t [] := by
  refine .other tasks (Nat.le_refl 1) (fun e mem => List.mem_singleton.mp mem ▸ other)
    fun session lines there => ?_
  rwa [same.histories, Option.map_id'] at there

theorem externalSeen (clean : Shell.Clean s) (call : External) :
    (call.run s).config = s.config ∧ Seen s (call.run s) (call.events s) := by
  cases call with
  | openSession =>
    refine ⟨rfl, .opens rfl fun other => ?_⟩
    change ((s.sessions.insert _ _).get? other).map Session.history =
      if other = ⟨s.sessionCount⟩ then some [] else history? s other
    rw [Dict.getInsert]
    split <;> rfl
  | closeSession session =>
    obtain ⟨ready, closed⟩ := Shell.closedQuietly clean session
    change (s.closeSession session).config = s.config ∧ Seen s (s.closeSession session) []
    rw [closed]
    refine ⟨rfl, .other (List.append_nil _).symm (Nat.zero_le 1) (List.forall_mem_nil _)
      fun other lines there => ?_⟩
    unfold history? at there ⊢
    change ((s.sessions.erase session).get? other).map _ = _ at there
    rw [Dict.getErase] at there
    split at there
    · cases there
    · exact there
  | input session line =>
    cases pending : s.requests.hasPending session with
    | true =>
      obtain ⟨ready, taken⟩ := inputTaken line pending
      simp only [External.run, External.events, taken, if_true, true_and]
      exact seenQuiet rfl (sameSessions rfl rfl)
    | false =>
      obtain ⟨ready, dispatched⟩ := inputDispatched line pending
      simp only [External.run, External.events, dispatched, reduceCtorEq, if_false, true_and]
      exact .dispatches rfl (sameSessions rfl rfl)
  | execute session line piped => exact ⟨rfl, .dispatches rfl (sameSessions rfl rfl)⟩
  | cancel session =>
    obtain ⟨ready, cancelled⟩ := Shell.cancelledQuietly clean session
    change (s.cancel session).2.config = s.config ∧ Seen s (s.cancel session).2 []
    rw [cancelled]
    exact ⟨rfl, seenQuiet rfl (sameSessions rfl rfl)⟩
  | createJob session line =>
    obtain ⟨jobs, ready, started⟩ := OwnRequests.jobStarted s session line none
    change (s.startJob session line none).2.config = s.config ∧ Seen s (s.startJob session line none).2 []
    rw [started]
    exact ⟨rfl, seenTask rfl rfl (sameSessions rfl rfl)⟩
  | killJob id =>
    obtain ⟨ready, killed⟩ := Shell.killedQuietly clean id
    change (s.killJob id).2.config = s.config ∧ Seen s (s.killJob id).2 []
    rw [killed]
    exact ⟨rfl, seenQuiet rfl (sameSessions rfl rfl)⟩
  | watchJob id =>
    have looked := sameLook s.newTask.2 s.newTask.1 id
    refine ⟨looked.config, ?_⟩
    rcases Actions.lookedTasks s.newTask.2 s.newTask.1 id with tasks | ⟨watch, tasks⟩
    · exact seenQuiet tasks ((sameSessions rfl rfl : SameHistories s s.newTask.2).trans looked)
    · exact seenTask tasks rfl ((sameSessions rfl rfl : SameHistories s s.newTask.2).trans looked)
  | setStore session store =>
    exact ⟨rfl, seenQuiet rfl (sameStore s session fun _ => store)⟩
  | _ => exact ⟨rfl, seenQuiet rfl (sameSessions rfl rfl)⟩

theorem bookedRun (run : Run s log) : Booked s log := by
  induction run with
  | start made =>
    obtain ⟨registry, rfl⟩ := Shell.registerElsewhere made
    exact ⟨Nat.zero_le 1, fun session lines there => nomatch there⟩
  | call before still call ih =>
    obtain ⟨config, seen⟩ := externalSeen (Shell.soundReachable (runReachable before)).toClean call
    exact seenBooked still ih config seen
  | turn before tie id ih => exact turnBooked (runReachable before) ih tie id
  | pass before clock wall dice ih => exact bookedSame ih rfl (sameSessions rfl rfl)
  | schedule before ready aside turnCount ih => exact bookedSame ih rfl (sameSessions rfl rfl)

end ConsoleShell.TypedRuns
