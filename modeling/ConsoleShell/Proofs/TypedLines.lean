import ConsoleShell.Proofs.TypedRuns

/-! Lines that are typed. Every line is an answer for the one command that waits for it, or has a task of
its own, which keeps the line in its session's history; and so a session has kept the last of all lines that
were dispatched to it since they were forgotten. -/
namespace ConsoleShell.TypedLines
open Cancellation (asked?)
open Histories
open LineWaiting
open RequestTurns (knownState stateSet)
open Shell (Reachable)
open TypedRuns

variable {s : Shell} {log : List Event} {id : TaskId} {task : Shell.Task} {session : SessionId}
  {request : RequestId}

/- A line that is given to the command of a task. That command alone has waited, is the only one to go on now,
and goes on with the line. Nobody else is told anything, no task is made, and no history changes. -/
structure Given (s : Shell) (session : SessionId) (line : Text) (id : TaskId) (task : Shell.Task)
    (request : RequestId) (t : Shell) : Prop where
  alone : ∀ other second next, (other, second) ∈ s.tasks → Asks session second next →
    other = id ∧ second = task
  found : (t.requests.poll request).1 = .line line
  others : ∀ other, other ≠ request → t.requests.state other = s.requests.state other
  same : ∃ requests ready, t = { s with requests, ready }
  next : ∀ e ∈ t.tasks, t.canMove e.2 = true ↔ e = (id, task)
  turn : ∀ tie c wait, task = .waiting c wait →
    t.resume tie id = Shell.leave id c (Shell.proceed c (t.withdraw id) wait)

structure Dispatched (s : Shell) (session : SessionId) (line : Text) (result : InputOutcome × Shell) :
    Prop where
  fresh : ∀ e ∈ s.tasks, e.1 ≠ ⟨s.taskCount⟩
  starts : ∃ requests ready, result = (.dispatched ⟨s.taskCount⟩, { s with
    tasks := s.tasks ++ [(⟨s.taskCount⟩, .line session line none)]
    taskCount := s.taskCount + 1
    requests, ready })

structure LinesKept (s : Shell) (log : List Event) : Prop where
  consumed : Still s → ∀ session line, (s.handleInput session line).1 = .consumed ↔
    ∃ e ∈ s.tasks, ∃ request, Asks session e.2 request
  given : Still s → ∀ session line id task request, (id, task) ∈ s.tasks → Asks session task request →
    Given s session line id task request (s.handleInput session line).2
  dispatched : ∀ session line, (s.handleInput session line).1 ≠ .consumed →
    Dispatched s session line (s.handleInput session line)
  turns : ∀ tie id task session, (id, task) ∈ s.tasks →
    history? (s.resume tie id) session = (history? s session).map (kept s task session)
  once : ∀ tie id task, (id, task) ∈ s.tasks → isLine task = true →
    ∀ e ∈ (s.resume tie id).tasks, e.1 = id → isLine e.2 = false
  history : Still s → ∀ session, s.isOpen session = true →
    s.history session = lastOf s.config.historyLimit (typed session log)
  bounded : ∀ session, (s.history session).length ≤ s.config.historyLimit

theorem deliveredState {r : Requests} (found : r.pending.get? session = some request)
    (waits : r.state request = .waiting) (line : Text) (other : RequestId) :
    (r.deliver session line).2.state other = if other = request then .answered line else r.state other := by
  have known := knownState r (show r.state request ≠ .closed by simp [waits])
  have stays : ({ r with pending := r.pending.erase session } : Requests).state = r.state := rfl
  unfold Requests.deliver
  rw [found]
  dsimp only
  rw [stays, if_pos waits, stateSet, stays]
  simp only [known, and_true]

theorem untoldMoves {requests : Requests} (ready : List TaskId)
    (untold : ∀ request, asked? task = some request → requests.state request = s.requests.state request) :
    ({ s with requests, ready } : Shell).canMove task = s.canMove task := by
  cases task with
  | waiting c wait =>
    have happens : ({ s with requests, ready } : Shell).hasHappened wait = s.hasHappened wait := by
      cases wait with
      | line request | answer request => exact congrArg (· != .waiting) (untold request rfl)
      | sleep | job | cancel => rfl
    exact congrArg (· || s.isCancelled c.origin) happens
  | _ => rfl

theorem happenedTurn {c : Invocation} {wait : Wait} (stands : s.tasks.lookup id = some (.waiting c wait))
    (happened : s.hasHappened wait = true) (unasked : s.isCancelled c.origin = false) (tie : Shell.Tie) :
    s.resume tie id = Shell.leave id c (Shell.proceed c (s.withdraw id) wait) := by
  have moves : s.canMove (.waiting c wait) = true := by simp [Shell.canMove, happened]
  have still : (s.withdraw id).hasHappened wait = true := by cases wait <;> exact happened
  have quiet : (s.withdraw id).isCancelled c.origin = false := unasked
  unfold Shell.resume
  rw [stands]
  dsimp only
  rw [if_pos moves]
  unfold Shell.goOn
  rw [still, quiet]

theorem givenAsker (h : Reachable s) (still : Still s) (mem : (id, task) ∈ s.tasks)
    (asks : Asks session task request) (line : Text) :
    Given s session line id task request (s.handleInput session line).2 := by
  obtain ⟨owners, filed⟩ := OwnRequests.filedReachable h
  obtain ⟨c, wait, rfl, rfl, asked, waits, unasked⟩ := stillUnasked still mem asks
  have pending := stillPending h still mem asks
  have told := deliveredState pending waits line
  obtain ⟨ready, taken⟩ := inputTaken line (stillHasPending h still mem asks)
  rw [taken]
  generalize (s.requests.deliver c.session line).2 = requests at told
  have answered : requests.state request = .answered line := (told request).trans (if_pos rfl)
  have happened : ({ s with requests, ready } : Shell).hasHappened wait = true := by
    rw [requestHappens asked]
    exact bne_iff_ne.mpr (by simp [answered])
  refine {
    alone := fun other second next there again => askerAlone h still mem asks there again
    found := by unfold Requests.poll; rw [answered]
    others := fun other apart => (told other).trans (if_neg apart)
    same := ⟨requests, ready, rfl⟩
    next := fun e there => ?_
    turn := fun tie d again same => ?_ }
  · constructor
    · intro moves
      have reached : asked? e.2 = some request := by
        refine Decidable.byContradiction fun other => ?_
        have untold (second : RequestId) (own : asked? e.2 = some second) :
            requests.state second = s.requests.state second :=
          (told second).trans (if_neg fun same => other (own.trans (congrArg some same)))
        rw [untoldMoves ready untold, still e there] at moves
        cases moves
      obtain ⟨owner, owned, again⟩ := askedAsks h filed there reached
      cases owned.symm.trans (filed.files _ mem request asked).1
      obtain ⟨own, same⟩ := askerAlone h still mem asks there again
      exact Prod.ext own same
    · rintro rfl
      simp [Shell.canMove, happened]
  · cases same
    exact happenedTurn (s := { s with requests, ready }) (FiredScopes.taskFound h mem) happened unasked tie

theorem openHistory (isOpen : s.isOpen session = true) : history? s session = some (s.history session) := by
  obtain ⟨data, there⟩ := Option.isSome_iff_exists.mp isOpen
  simp [history?, Shell.history, there]

theorem typedLinesKept (run : Run s log) : LinesKept s log where
  consumed still session line := by
    cases pending : s.requests.hasPending session with
    | true =>
      obtain ⟨ready, taken⟩ := inputTaken line pending
      rw [taken]
      exact ⟨fun _ => pendingAsks (runReachable run) pending, fun _ => rfl⟩
    | false =>
      obtain ⟨ready, dispatched⟩ := inputDispatched line pending
      rw [dispatched]
      refine ⟨nofun, fun ⟨e, mem, request, asks⟩ => ?_⟩
      exact absurd (stillHasPending (runReachable run) still mem asks) (by simp [pending])
  given still session line id task request mem asks := givenAsker (runReachable run) still mem asks line
  dispatched session line other := by
    have unique := FiredScopes.uniqueReachable (runReachable run)
    cases pending : s.requests.hasPending session with
    | true =>
      obtain ⟨ready, taken⟩ := inputTaken line pending
      exact absurd (congrArg Prod.fst taken) other
    | false =>
      obtain ⟨ready, dispatched⟩ := inputDispatched line pending
      refine ⟨fun e mem same => ?_, _, ready, dispatched⟩
      exact Nat.lt_irrefl _ (same ▸ unique.numbered e mem)
  turns tie id task session mem :=
    (turnWrites (runReachable run) (FiredScopes.taskFound (runReachable run) mem) tie).histories session
  once tie id task mem line e there own := by
    cases turnTasks (FiredScopes.taskFound (runReachable run) mem) tie with
    | stays begun tasks => cases (begunNotLine begun).symm.trans line
    | leaves tasks lines few =>
      rcases List.mem_append.mp (tasks ▸ there) with old | new
      · exact absurd own (by simpa using (List.mem_filter.mp old).2)
      · exact lines e new
  history still session isOpen := by
    obtain ⟨written, all, last⟩ := (bookedRun run).kept session _ (openHistory isOpen)
    rw [last, all, stillDue still, List.append_nil]
  bounded session := by
    cases isOpen : s.isOpen session with
    | true =>
      obtain ⟨written, -, last⟩ := (bookedRun run).kept session _ (openHistory isOpen)
      rw [last]
      exact lastOfBounded _ _
    | false =>
      have closed : s.sessions.get? session = none := by simpa [Shell.isOpen, Dict.contains] using isOpen
      simp [Shell.history, closed]

def reading : Shell := (Offstage.opened.handleInput ⟨0⟩ "read x").2.resume .event ⟨0⟩

def answered : Shell := (reading.handleInput ⟨0⟩ "secret").2.resume .event ⟨0⟩

def forgetful : Shell := (answered.handleInput ⟨0⟩ "history -c").2.resume .event ⟨1⟩

def echoing : Shell := (forgetful.handleInput ⟨0⟩ " echo hi ").2.resume .event ⟨2⟩

theorem openedRun : Run Offstage.opened [.opened ⟨0⟩] := by
  have run := (Run.start (Shell.startedMade Config.standard)).call (by decide +kernel) .openSession
  have told : [] ++ External.openSession.events (Shell.started Config.standard) = [.opened ⟨0⟩] := by
    decide +kernel
  exact told ▸ run

theorem typedRun (run : Run s log) (session : SessionId) (line : Text) (id : TaskId) {told : List Event}
    (goes : Still s ∧ log ++ (External.input session line).events s ++
      turnEvents (s.handleInput session line).2 id = told) :
    Run ((s.handleInput session line).2.resume .event id) told :=
  goes.2 ▸ (run.call goes.1 (.input session line)).turn .event id

theorem readingRun : Run reading [.opened ⟨0⟩, .dispatched ⟨0⟩ "read x"] :=
  typedRun openedRun _ _ _ (by decide +kernel)

theorem echoingRun : Run echoing [.opened ⟨0⟩, .dispatched ⟨0⟩ "read x", .dispatched ⟨0⟩ "history -c",
    .forgotten ⟨0⟩, .dispatched ⟨0⟩ " echo hi "] := by
  have answers : Run answered [.opened ⟨0⟩, .dispatched ⟨0⟩ "read x"] :=
    typedRun readingRun _ _ _ (by decide +kernel)
  have forgets : Run forgetful [.opened ⟨0⟩, .dispatched ⟨0⟩ "read x", .dispatched ⟨0⟩ "history -c",
      .forgotten ⟨0⟩] :=
    typedRun answers _ _ _ (by decide +kernel)
  exact typedRun forgets _ _ _ (by decide +kernel)

theorem typedLinesKeptEchoing :
    LinesKept reading [.opened ⟨0⟩, .dispatched ⟨0⟩ "read x"] ∧
      (reading.handleInput ⟨0⟩ "secret").1 = .consumed ∧
      (∃ e ∈ reading.tasks, ∃ request, Asks ⟨0⟩ e.2 request) ∧
      reading.history ⟨0⟩ = [("read x" : Text)] ∧ echoing.history ⟨0⟩ = [("echo hi" : Text)] := by
  have waits := typedLinesKept readingRun
  have ends := typedLinesKept echoingRun
  obtain ⟨still, isOpen, taken, first⟩ : Still reading ∧ reading.isOpen ⟨0⟩ = true ∧
      (reading.handleInput ⟨0⟩ "secret").1 = .consumed ∧ lastOf reading.config.historyLimit
        (typed ⟨0⟩ [.opened ⟨0⟩, .dispatched ⟨0⟩ "read x"]) = [("read x" : Text)] := by
    decide +kernel
  obtain ⟨rests, stands, last⟩ : Still echoing ∧ echoing.isOpen ⟨0⟩ = true ∧
      lastOf echoing.config.historyLimit (typed ⟨0⟩ [.opened ⟨0⟩, .dispatched ⟨0⟩ "read x",
        .dispatched ⟨0⟩ "history -c", .forgotten ⟨0⟩, .dispatched ⟨0⟩ " echo hi "]) =
          [("echo hi" : Text)] := by
    decide +kernel
  exact ⟨waits, taken, (waits.consumed still ⟨0⟩ "secret").mp taken,
    (waits.history still ⟨0⟩ isOpen).trans first, (ends.history rests ⟨0⟩ stands).trans last⟩

end ConsoleShell.TypedLines
