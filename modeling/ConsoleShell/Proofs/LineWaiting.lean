import ConsoleShell.Proofs.Cancellation
import ConsoleShell.Proofs.Heedful

/-! Who waits for lines. A request that waits is that of a command that stands there for it: whoever has
been told something looks, whoever is asked to stop gives the request up, and nobody else goes away. So where
nothing can move, the next line of a session has a taker exactly if `read` or `confirm` waits there. -/
namespace ConsoleShell.LineWaiting
open Cancellation (asked? isOver without stopsSuspended)
open Confinement
open Foreground (oneTask recordedReachable running stagedRecorded)
open OwnRequests (Filed filedReachable)
open RequestTurns
open Shell (Reachable Step)

def Held (s : Shell) : Prop :=
  ∀ request, s.requests.state request = .waiting → ∃ e ∈ s.tasks, asked? e.2 = some request

variable {s t : Shell} {c : Invocation} {id : TaskId} {task : Shell.Task} {tie : Shell.Tie}
  {run : Halt × Shell} {session : SessionId} {owners : List SessionId} {request : RequestId}

theorem movedWaits {r : Requests} (registered : Registered r owners) {m : RequestMove} (quiet : m.makes = [])
    (waits : (m.run r).state request = .waiting) : r.state request = .waiting := by
  have known := knownState (m.run r) (show (m.run r).state request ≠ .closed by simp [waits])
  rw [moveCount, quiet, List.length_nil, Nat.add_zero, registered.counted] at known
  exact (waitedOn registered m (List.getElem?_eq_getElem known) waits).1

theorem awaitedWaits {r : Requests} (registered : Registered r owners)
    (waits : (r.await session).2.2.state request = .waiting) :
    r.state request = .waiting ∨ request = ⟨r.states.length⟩ := by
  have known := knownState _ (show (r.await session).2.2.state request ≠ .closed by simp [waits])
  rw [awaitCount] at known
  rcases Nat.lt_or_ge request.index owners.length with inside | outside
  · exact .inl (waitedOn registered (.await session) (List.getElem?_eq_getElem inside) waits).1
  · rw [← registered.counted] at outside
    exact .inr (sameRequest.mp (Nat.le_antisymm (Nat.le_of_lt_succ known) outside))

theorem performedWaits (registered : Registered s.requests owners) (performed : Performed c s run)
    (waits : run.2.requests.state request = .waiting) :
    s.requests.state request = .waiting ∨ haltRequest? run.1 = some request := by
  cases performed with
  | idle confined none => exact .inl (confined.requests ▸ waits)
  | @asks u made wait t confined asked waited =>
    obtain ⟨-, rfl, rfl⟩ := granted asked
    rw [confined.requests] at waited
    have waits : (u.requests.await c.session).2.2.state request = .waiting := waits
    rw [confined.requests] at waits
    rcases awaitedWaits registered waits with old | rfl
    · exact .inl old
    · exact .inr waited

theorem goesOnWaits (registered : Registered s.requests owners) {wait : Wait} (goesOn : GoesOn c wait s run)
    (waits : run.2.requests.state request = .waiting) :
    s.requests.state request = .waiting ∨ haltRequest? run.1 = some request := by
  cases goesOn with
  | stays => exact .inl waits
  | free none performed => exact performedWaits registered performed waits
  | @looks own m run waited look performed =>
    have quiet : m.makes = [] := by rcases look with rfl | rfl <;> rfl
    have moved : Registered (m.run s.requests) owners := registeredStill registered quiet
    exact (performedWaits (s := { s with requests := m.run s.requests }) moved performed waits).imp_left
      (movedWaits registered quiet)

theorem leftHeld (asks : haltRequest? run.1 = some request) :
    ∃ e ∈ (Shell.leave id c run).tasks, asked? e.2 = some request := by
  rw [(left id (c := c) run).tasks]
  cases halt : run.1 with
  | waiting wait =>
    rw [halt] at asks
    exact ⟨(id, .waiting c wait), List.mem_append_right _ List.mem_cons_self, asks⟩
  | yielded rest | ended ending =>
    rw [halt] at asks
    cases asks

theorem commandWaits (registered : Registered s.requests owners) (turn : CommandTurn id task c s t)
    (waits : t.requests.state request = .waiting) :
    s.requests.state request = .waiting ∨ ∃ e ∈ t.tasks, asked? e.2 = some request := by
  cases turn with
  | refused outcome =>
    have concluded := confinedConclude (c := c) s id outcome
    exact .inl (concluded.requests ▸ waits)
  | halted performed =>
    rw [(left id (c := c) _).requests] at waits
    exact (performedWaits registered performed waits).imp_right leftHeld
  | wentOn same goesOn =>
    rw [(left id (c := c) _).requests] at waits
    exact (goesOnWaits registered goesOn waits).imp_right leftHeld

theorem lineWaits (registered : Registered s.requests owners) (turn : LineTurn id task session s t)
    (waits : t.requests.state request = .waiting) :
    s.requests.state request = .waiting ∨ ∃ e ∈ t.tasks, asked? e.2 = some request := by
  cases turn with
  | noted noted => exact .inl (noted.requests ▸ waits)
  | @job u t command piped before after =>
    obtain ⟨jobs, ready, started⟩ := OwnRequests.jobStarted u session command piped
    rw [after.requests, started] at waits
    exact .inl (before.requests ▸ waits)
  | command before own foreground turn =>
    exact (commandWaits (before.requests.symm ▸ registered) turn waits).imp_left fun old =>
      before.requests ▸ old

theorem turnWaits (registered : Registered s.requests owners) (turn : TaskTurn s id task t)
    (waits : t.requests.state request = .waiting) :
    s.requests.state request = .waiting ∨ ∃ e ∈ t.tasks, asked? e.2 = some request := by
  cases turn with
  | waits => exact .inl waits
  | line own foreground turn => exact lineWaits (s := s.withdraw id) registered turn waits
  | command own place turn => exact commandWaits (s := s.withdraw id) registered turn waits
  | watcher same =>
    rw [(OwnRequests.lookTasks _ _ _).1] at waits
    exact .inl waits

theorem requestHappens {wait : Wait} (asks : request? wait = some request) :
    s.hasHappened wait = (s.requests.state request != .waiting) := by
  cases wait with
  | line | answer => cases asks; rfl
  | sleep | job | cancel => cases asks

/- A command whose request still waits has no reason to go on but that it is asked to stop, and gives it
up then. -/
theorem ownStays (h : Reachable s) (listed : (id, task) ∈ s.tasks) (asks : asked? task = some request)
    (before : s.requests.state request = .waiting)
    (waits : (s.resume tie id).requests.state request = .waiting) : (s.resume tie id).tasks = s.tasks := by
  cases task with
  | waiting c wait =>
    have early : s.hasHappened wait = false := by rw [requestHappens asks, before]; rfl
    cases asked : s.isCancelled c.origin with
    | true =>
      have remains : isOver s (.waiting c wait) = false := by
        cases wait with
        | job => cases asks
        | _ => exact early
      obtain ⟨run, -, turn, given, -⟩ := stopsSuspended h listed rfl asked remains tie
      have closed : (s.requests.abandon request).state request = .closed :=
        (stateClosed s.requests request request).trans (if_pos rfl)
      have gone : without s (.waiting c wait) = s.requests.abandon request := by
        unfold without
        rw [asks]
        rfl
      rw [turn, (left id run).requests, given.requests, gone, closed] at waits
      cases waits
    | false =>
      have still : s.canMove (.waiting c wait) = false := by simp [Shell.canMove, early, asked]
      unfold Shell.resume
      rw [FiredScopes.taskFound h listed]
      simp [still]
  | _ => cases asks

theorem heldResume (h : Reachable s) (held : Held s) (tie : Shell.Tie) (id : TaskId) :
    Held (s.resume tie id) := by
  intro request waits
  obtain ⟨owners, filed⟩ := filedReachable h
  cases stands : s.tasks.lookup id with
  | none =>
    have absent : s.resume tie id = s.withdraw id := by
      unfold Shell.resume
      rw [stands]
    rw [absent] at waits
    obtain ⟨e, mem, asks⟩ := held request waits
    have apart : e.1 ≠ id := fun same => by simpa [same] using List.lookup_eq_none_iff.mp stands e mem
    exact ⟨e, (Actions.tasksAfter tie s id).others e mem apart, asks⟩
  | some task =>
    have turn := resumeTurn (Shell.soundReachable h) stands tie
    rcases turnWaits filed.registered turn waits with before | there
    · obtain ⟨e, mem, asks⟩ := held request before
      by_cases own : e.1 = id
      · have same := FiredScopes.taskFound h (show (id, e.2) ∈ s.tasks from own ▸ mem)
        cases stands.symm.trans same
        exact ⟨e, (ownStays h (own ▸ mem) asks before waits).symm ▸ mem, asks⟩
      · exact ⟨e, (Actions.tasksAfter tie s id).others e mem own, asks⟩
    · exact there

theorem heldStep (h : Reachable s) (held : Held s) (step : Step s t) : Held t := by
  rcases OwnRequests.stepOutside (Shell.soundReachable h) step with ⟨tie, id, rfl⟩ | outside
  · exact heldResume h held tie id
  · rcases Actions.stepJoins step with ⟨tie, id, rfl⟩ | joined
    · exact heldResume h held tie id
    · intro request waits
      obtain ⟨owners, filed⟩ := filedReachable h
      obtain ⟨m, quiet, moved⟩ := outside.requests
      obtain ⟨e, mem, asks⟩ := held request (movedWaits filed.registered quiet (moved ▸ waits))
      exact ⟨e, joined.stay e mem, asks⟩

theorem heldReachable (h : Reachable s) : Held s := by
  induction h with
  | start made =>
    obtain ⟨registry, rfl⟩ := Shell.registerElsewhere made
    exact fun request waits => nomatch waits
  | step before move ih => exact heldStep before ih move

def Still (s : Shell) : Prop := ∀ e ∈ s.tasks, s.canMove e.2 = false

instance (s : Shell) : Decidable (Still s) :=
  inferInstanceAs (Decidable (∀ e ∈ s.tasks, s.canMove e.2 = false))

inductive Asks (session : SessionId) : Shell.Task → RequestId → Prop where
  | read {c request next} (own : c.session = session) (named : c.command = some ("read" : Text)) :
      Asks session (.waiting c (.line request next)) request
  | confirm {c request next} (own : c.session = session) (named : c.command = some ("confirm" : Text)) :
      Asks session (.waiting c (.answer request next)) request

theorem Asks.waits (asks : Asks session task request) :
    ∃ c wait, task = .waiting c wait ∧ c.session = session ∧ request? wait = some request := by
  cases asks with
  | read own named | confirm own named => exact ⟨_, _, rfl, own, rfl⟩

theorem askedAsks (h : Reachable s) (filed : Filed s owners) (mem : (id, task) ∈ s.tasks)
    (asked : asked? task = some request) :
    ∃ session, owners[request.index]? = some session ∧ Asks session task request := by
  have files := filed.files _ mem
  have heedful := Heedful.heedfulReachable h _ mem
  cases task with
  | waiting c wait =>
    obtain ⟨owned, -⟩ := files request asked
    obtain ⟨name, named, each⟩ := heedful
    refine ⟨c.session, owned, ?_⟩
    cases wait with
    | line other next =>
      cases asked
      cases (each.here : name = "read")
      exact .read rfl named
    | answer other next =>
      cases asked
      obtain ⟨message, each⟩ := each
      cases (each.here : name = "confirm")
      exact .confirm rfl named
    | sleep | job | cancel => cases asked
  | _ => cases asked

theorem pendingAsks (h : Reachable s) (pending : s.requests.hasPending session = true) :
    ∃ e ∈ s.tasks, ∃ request, Asks session e.2 request := by
  obtain ⟨owners, filed⟩ := filedReachable h
  obtain ⟨request, found, waits⟩ := (LineKeeping.pendingIff _ _).mp pending
  obtain ⟨e, mem, asked⟩ := heldReachable h request waits
  obtain ⟨owner, owned, asks⟩ := askedAsks h filed mem asked
  cases owned.symm.trans (pendingOwned filed.registered found)
  exact ⟨e, mem, request, asks⟩

section Still

variable (h : Reachable s) (still : Still s) (mem : (id, task) ∈ s.tasks) (asks : Asks session task request)

include still mem asks

theorem stillUnasked : ∃ c wait, task = .waiting c wait ∧ c.session = session ∧
    request? wait = some request ∧ s.requests.state request = .waiting ∧ s.isCancelled c.origin = false := by
  obtain ⟨c, wait, rfl, own, asked⟩ := asks.waits
  have rests := still _ mem
  simp only [Shell.canMove, requestHappens asked, Bool.or_eq_false_iff, bne_eq_false_iff_eq] at rests
  exact ⟨c, wait, rfl, own, asked, rests⟩

include h

theorem stillPending : s.requests.pending.get? session = some request := by
  obtain ⟨owners, filed⟩ := filedReachable h
  obtain ⟨c, wait, rfl, rfl, asked, waits, -⟩ := stillUnasked still mem asks
  exact filed.registered.pending c.session request (filed.files _ mem request asked).1 waits

theorem stillHasPending : s.requests.hasPending session = true := by
  obtain ⟨-, -, -, -, -, waits, -⟩ := stillUnasked still mem asks
  exact (LineKeeping.pendingIff _ _).mpr ⟨request, stillPending h still mem asks, waits⟩

theorem stillLive : ∃ scope, s.scopes.live.get? session = some scope ∧ ⟨id, session, scope⟩ ∈ running s := by
  obtain ⟨owners, filed⟩ := filedReachable h
  obtain ⟨c, wait, rfl, rfl, asked, -, unasked⟩ := stillUnasked still mem asks
  obtain ⟨-, place⟩ := filed.files _ mem request asked
  cases origin : c.origin with
  | job job signal =>
    rw [origin] at place
    cases place
  | foreground scope =>
    have runs := Cancellation.suspendedRunning mem rfl origin
    obtain ⟨begun, recorded⟩ := recordedReachable h
    obtain ⟨released, held⟩ := (stagedRecorded recorded).held
    refine ⟨scope, ?_, runs⟩
    rcases held.safe.accounted _ (held.begun _ runs) with live | left | fired
    · exact live
    · exact absurd left (held.unreleased _ runs)
    · rw [origin] at unasked
      exact absurd fired (by simpa [Shell.isCancelled] using unasked)

theorem askerAlone {other : TaskId} {second : Shell.Task} {next : RequestId}
    (there : (other, second) ∈ s.tasks) (again : Asks session second next) :
    other = id ∧ second = task := by
  obtain ⟨scope, live, runs⟩ := stillLive h still mem asks
  obtain ⟨shared, found, later⟩ := stillLive h still there again
  cases live.symm.trans found
  obtain ⟨begun, recorded⟩ := recordedReachable h
  obtain ⟨released, held⟩ := (stagedRecorded recorded).held
  cases held.apart _ runs _ later rfl
  exact ⟨rfl, oneTask (stagedRecorded recorded).unique there mem⟩

end Still

end ConsoleShell.LineWaiting
