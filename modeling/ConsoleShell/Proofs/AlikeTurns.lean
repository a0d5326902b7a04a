import ConsoleShell.Proofs.AlikeCommands
import ConsoleShell.Proofs.ScopeTokens

/-! What the turns of a session depend on. Two shells that agree on what a session has to itself and on what
all sessions share go on alike with a task of that session, and answer alike to what its user does. -/
namespace ConsoleShell.AlikeTurns
open Confinement Printing RequestTurns Foreground
open ScopeTokens (Apart)
open Shell (Clean InTurn Sound)

variable {a b x y : Shell} {c d : Invocation} {session : SessionId} {i j : TaskId}

section Scopes

variable (s : Scopes Echo)

theorem askedFinished (scope : Scope) :
    asked? (s.finish session scope.id).2 session =
      if holds s session scope then none else asked? s session := by
  unfold Scopes.finish holds
  split
  · unfold asked?
    rw [Dict.getErase, if_pos rfl]
    rfl
  · rfl

theorem askedBegun (apart : Apart s) : asked? (s.replace session).2.2 session = some false := by
  obtain ⟨-, live, -⟩ := replaced s session
  unfold asked?
  rw [live, Dict.getInsert, if_pos rfl, Option.map_some, ScopeTokens.begunUnfired apart]

theorem holdsBegun : holds (s.replace session).2.2 session (s.replace session).1 = true := by
  obtain ⟨-, live, -⟩ := replaced s session
  unfold holds
  rw [live, Dict.getInsert, if_pos rfl]
  simp

theorem askedInterrupted (apart : Apart s) :
    asked? (s.interrupt session).2.2 session = (asked? s session).map fun _ => true := by
  obtain ⟨signals, same⟩ := interrupted s session
  cases found : s.live.get? session with
  | none => simp [Scopes.interrupt, asked?, found]
  | some scope =>
    have fired : (s.interrupt session).2.2 = { s with signals := (s.signals.fire scope.signal).2 } := by
      rw [← ScopeSafety.firedScopes]
      unfold Scopes.interrupt
      rw [found]
      dsimp only
      split <;> (rename_i known; rw [known])
    rw [fired]
    simp [asked?, found, Signals.firedFire (apart.known session scope found)]

def told : Option Bool → CancelOutcome
  | none => .noActiveScope
  | some false => .cancelled
  | some true => .alreadyCancelled

theorem interruptTold (apart : Apart s) : (s.interrupt session).1 = told (asked? s session) := by
  unfold Scopes.interrupt asked?
  cases found : s.live.get? session with
  | none => rfl
  | some scope =>
    obtain ⟨signal, there⟩ := Signals.knownFound.mp (apart.known session scope found)
    rw [Option.map_some, Signals.firedState there]
    unfold Scopes.fire
    dsimp only
    cases state : signal.fired with
    | true =>
      rw [Signals.fireAgain fun other listed => (Option.some.inj (there.symm.trans listed)) ▸ state]
      rfl
    | false =>
      obtain ⟨first, -⟩ := Signals.fireFirst there state
      generalize s.signals.fire scope.signal = fired at first
      obtain ⟨waiting, signals⟩ := fired
      cases (first : waiting = _)
      rfl

theorem askedDiscarded (silent : Captured.Silent s.signals) :
    asked? (s.discard session).2 session = none := by
  unfold asked?
  rcases discarded silent session with ⟨silenced, same⟩ | ⟨scope, signals, -, -, same⟩
  · rw [same, silenced]
    rfl
  · rw [same, Dict.getErase, if_pos rfl]
    rfl

end Scopes

theorem Alike.finish (h : Alike session a b) {u v : Scope}
    (live : holds b.scopes session v = holds a.scopes session u) :
    Alike session (a.finishScope session u) (b.finishScope session v) := by
  refine { h with scope := ?_ }
  change asked? (b.scopes.finish session v.id).2 session = asked? (a.scopes.finish session u.id).2 session
  rw [askedFinished, askedFinished, live, h.scope]

theorem Alike.begun (h : Alike session a b) (left : Sound a) (right : Sound b) (apart : Apart a.scopes)
    (away : Apart b.scopes) :
    Alike session (a.beginScope session).2 (b.beginScope session).2 ∧
      Placed session (a.beginScope session).2 (b.beginScope session).2
        (.foreground (a.beginScope session).1) (.foreground (b.beginScope session).1) := by
  unfold Shell.beginScope
  rw [Captured.silentBegin left.scopes, Captured.silentBegin right.scopes]
  refine ⟨{ h with scope := ?_ }, .foreground ?_ ?_⟩
  · exact (askedBegun _ away).trans (askedBegun _ apart).symm
  · exact (ScopeTokens.begunUnfired away session).trans (ScopeTokens.begunUnfired apart session).symm
  · exact (holdsBegun b.scopes).trans (holdsBegun a.scopes).symm

theorem Alike.settle (h : Alike session a b) (id : JobId) (result : JobResult) :
    Alike session (a.settleJob id result) (b.settleJob id result) := by
  have jobs : b.jobs.settle id result b.wall = a.jobs.settle id result a.wall := by rw [h.jobs, h.wall]
  exact { h with jobs := jobs }

inductive TasksAlike (session : SessionId) (a b : Shell) : Shell.Task → Shell.Task → Prop where
  | line (text : Text) (piped : Option (List Text)) :
      TasksAlike session a b (.line session text piped) (.line session text piped)
  | job (id : JobId) (signal : SignalId) (text : Text) (piped : Option (List Text)) :
      TasksAlike session a b (.job session id signal text piped) (.job session id signal text piped)
  | program {c d : Invocation} (own : c.session = session) (together : Together c d a b) (p : Program) :
      TasksAlike session a b (.program c p) (.program d p)
  | waiting {c d : Invocation} {v w : Wait} (own : c.session = session) (together : Together c d a b)
      (waits : WaitsAlike a b v w) : TasksAlike session a b (.waiting c v) (.waiting d w)

inductive RestAlike (session : SessionId) (a b : Shell) :
    Option Shell.Task → Option Shell.Task → Prop where
  | none : RestAlike session a b none none
  | some {x y : Shell.Task} (alike : TasksAlike session a b x y) : RestAlike session a b (some x) (some y)

structure AfterAlike (session : SessionId) (i j : TaskId) (a b s t : Shell) : Prop where
  alike : Alike session s t
  outcomes : ∃ ends : List Outcome, s.outcomes = a.outcomes ++ ends.map (Prod.mk i) ∧
    t.outcomes = b.outcomes ++ ends.map (Prod.mk j)
  rest : RestAlike session s t (s.tasks.lookup i) (t.tasks.lookup j)

theorem takenLookup (turn : InTurn a i) : a.tasks.lookup i = none := by
  refine List.lookup_eq_none_iff.mpr fun entry listed => ?_
  simpa using (turn.taken entry listed).symm

theorem lookupPut (turn : InTurn a i) (task : Shell.Task) :
    (a.tasks ++ [(i, task)]).lookup i = some task := by
  rw [List.lookup_append, takenLookup turn]
  simp

section Ends

variable (first : InTurn a i) (second : InTurn b j)

include first second

theorem afterEnded {s t : Shell} (ends : List Outcome) (alike : Alike session s t)
    (left : s.outcomes = a.outcomes ++ ends.map (Prod.mk i))
    (right : t.outcomes = b.outcomes ++ ends.map (Prod.mk j)) (tasks : s.tasks = a.tasks)
    (others : t.tasks = b.tasks) : AfterAlike session i j a b s t := by
  refine ⟨alike, ⟨ends, left, right⟩, ?_⟩
  rw [tasks, others, takenLookup first, takenLookup second]
  exact .none

theorem afterQuiet {s t : Shell} (alike : Alike session s t) (left : s.outcomes = a.outcomes)
    (right : t.outcomes = b.outcomes) (tasks : s.tasks = a.tasks) (others : t.tasks = b.tasks) :
    AfterAlike session i j a b s t :=
  afterEnded first second [] alike (left.trans (List.append_nil _).symm)
    (right.trans (List.append_nil _).symm) tasks others

theorem afterPut {s t : Shell} {v w : Shell.Task} (alike : Alike session s t)
    (left : s.outcomes = a.outcomes) (right : t.outcomes = b.outcomes)
    (tasks : s.tasks = a.tasks ++ [(i, v)]) (others : t.tasks = b.tasks ++ [(j, w)])
    (rest : TasksAlike session s t v w) : AfterAlike session i j a b s t := by
  refine ⟨alike, ⟨[], left.trans (List.append_nil _).symm, right.trans (List.append_nil _).symm⟩, ?_⟩
  rw [tasks, others, lookupPut first, lookupPut second]
  exact .some rest

theorem concludeAlike (h : Together c d a b) (outcome : Outcome) :
    AfterAlike c.session i j a b (a.conclude i c.session c.origin outcome)
      (b.conclude j d.session d.origin outcome) := by
  have alike := h.toAlike
  have session := h.session
  obtain ⟨u, o, name⟩ := c
  obtain ⟨v, p, other⟩ := d
  cases (session : v = u)
  unfold Shell.conclude
  cases h.placed with
  | foreground fired live =>
    have finished := alike.finish live
    dsimp only
    split
    · rename_i error
      obtain ⟨-, buffer⟩ := pushAlike alike.buffer .error (Render.text .error (Markup.escape error.message))
      exact afterEnded first second [.failed error] { finished with buffer := buffer } rfl rfl rfl rfl
    · exact afterEnded first second [outcome] { finished with } rfl rfl rfl rfl
  | job id signal =>
    dsimp only
    split
    · exact afterQuiet first second (alike.settle id _) rfl rfl rfl rfl
    · exact afterQuiet first second alike rfl rfl rfl rfl

theorem quietAlike (h : Together c d a b) (ending : Ending) (uncalled : c.command = none) :
    AfterAlike c.session i j a b (Shell.leave i c (.ended ending, a))
      (Shell.leave j d (.ended ending, b)) := by
  have alike := h.toAlike
  have session := h.session
  have command := h.command
  obtain ⟨u, o, name⟩ := c
  obtain ⟨v, p, other⟩ := d
  cases (session : v = u)
  cases (uncalled : name = none)
  cases (command : other = none)
  unfold Shell.leave
  cases h.placed with
  | foreground fired live =>
    exact afterQuiet first second (alike.finish live) rfl rfl rfl rfl
  | job id signal =>
    dsimp only
    split
    · exact afterQuiet first second (alike.settle id _) rfl rfl rfl rfl
    · exact afterQuiet first second alike rfl rfl rfl rfl

theorem leftAlike {v w : Halt} (h : Together c d a b) (halts : HaltsAlike a b v w) :
    AfterAlike c.session i j a b (Shell.leave i c (v, a)) (Shell.leave j d (w, b)) := by
  cases halts with
  | @waiting v w waits =>
    have together : Together c d (a.suspend i (.waiting c v)) (b.suspend j (.waiting d w)) :=
      h.next { h.toAlike with } rfl rfl
    exact afterPut first second together.toAlike rfl rfl rfl rfl
      (.waiting rfl together (waits.stay rfl rfl))
  | yielded rest =>
    have together : Together c d (a.setAside i (.program c rest)) (b.setAside j (.program d rest)) :=
      h.next { h.toAlike with } rfl rfl
    exact afterPut first second together.toAlike rfl rfl rfl rfl (.program rfl together rest)
  | ended ending =>
    cases called : c.command with
    | none => exact quietAlike first second h ending called
    | some name =>
      have other := h.command.trans called
      unfold Shell.leave
      simp only [called, other]
      exact concludeAlike first second h (ending.outcome name)

end Ends

/- What commands do not touch while they run makes no difference. -/
theorem AfterAlike.since {s t : Shell} (left : x.outcomes = a.outcomes) (right : y.outcomes = b.outcomes)
    (after : AfterAlike session i j x y s t) : AfterAlike session i j a b s t := by
  obtain ⟨alike, ⟨ends, one, other⟩, rest⟩ := after
  exact ⟨alike, ⟨ends, left ▸ one, right ▸ other⟩, rest⟩

theorem leaveAlike (first : InTurn a i) (second : InTurn b j) {left right : Halt × Shell}
    (kept : Shell.Kept a left.2) (same : Shell.Kept b right.2) (runs : RunsAlike c d left right) :
    AfterAlike c.session i j a b (Shell.leave i c left) (Shell.leave j d right) :=
  (leftAlike (first.kept kept) (second.kept same) runs.together runs.halts).since
    kept.outcomes same.outcomes

structure Poised (session : SessionId) (i j : TaskId) (a b : Shell) : Prop where
  alike : Alike session a b
  left : Sound a
  right : Sound b
  apart : Apart a.scopes
  away : Apart b.scopes
  first : InTurn a i
  second : InTurn b j

theorem Poised.onSession (h : Poised session i j a b) (change : Session → Session) :
    Poised session i j (a.onSession session change) (b.onSession session change) where
  alike := h.alike.onSession change
  left := Shell.soundSession h.left session change
  right := Shell.soundSession h.right session change
  apart := h.apart
  away := h.away
  first := h.first.kept (Shell.keptSession a session change)
  second := h.second.kept (Shell.keptSession b session change)

theorem Alike.readCall (h : Alike session a b) (line : Text) :
    b.readCall session line = a.readCall session line := by
  unfold Shell.readCall Shell.expandLine
  rw [h.data, h.registry]

theorem dispatchAlike (left : Sound a) (right : Sound b) (first : InTurn a i) (second : InTurn b j)
    (h : Alike session a b) {o p : Origin} (placed : Placed session a b o p) (line : Text)
    (piped : Option (List Text)) :
    AfterAlike session i j a b (a.dispatch i session o line piped) (b.dispatch j session p line piped) := by
  have together (name : Option Text) : Together ⟨session, o, name⟩ ⟨session, p, name⟩ a b :=
    ⟨h, rfl, rfl, placed⟩
  have job : p.job? = o.job? := (together none).job
  unfold Shell.dispatch
  rw [h.readCall, job]
  split
  · exact concludeAlike first second (together none) _
  · exact concludeAlike first second (together none) _
  · rename_i call read
    exact leaveAlike first second (Shell.keptPerform _ _ _ _) (Shell.keptPerform _ _ _ _)
      (performAlike left.toClean right.toClean (together (some call.command.name))
        (Foreground.calledProgram left read ⟨o.job?, piped⟩) _)

theorem Alike.report (h : Alike session a b) (text : Text) :
    Alike session (a.printAt session none .output text).2 (b.printAt session none .output text).2 :=
  h.console (pushAlike h.buffer .output (Render.text .output text)).2

theorem assignedAlike (h : Alike session a b) (line : Text) :
    (a.assign? session line = none ∧ b.assign? session line = none) ∨
      ∃ assignment store, a.assign? session line = some (assignment, a.onStore session fun _ => store) ∧
        b.assign? session line = some (assignment, b.onStore session fun _ => store) := by
  unfold Shell.assign?
  rw [h.data]
  cases a.sessions.get? session with
  | none => exact .inl ⟨rfl, rfl⟩
  | some data =>
    cases assigned : data.store.assign? line with
    | none => exact .inl (by simp [assigned])
    | some made => exact .inr ⟨made.1, made.2, by simp [assigned]⟩

theorem startedAlike (h : Alike session a b) (line : Text) (piped : Option (List Text)) :
    (b.startJob session line piped).1 = (a.startJob session line piped).1 ∧
      Alike session (a.startJob session line piped).2 (b.startJob session line piped).2 := by
  have created : b.jobs.create session line b.wall = a.jobs.create session line a.wall := by
    rw [h.jobs, h.wall]
  unfold Shell.startJob
  rw [created]
  dsimp only
  split
  · exact ⟨rfl, h.jobsTo _⟩
  · exact ⟨rfl, { h with jobs := rfl }⟩

theorem reportedAlike (h : Alike session a b) (first : InTurn a i) (second : InTurn b j) (text : Text) :
    AfterAlike session i j a b ((a.printAt session none .output text).2.recordOutcome i .ok)
      ((b.printAt session none .output text).2.recordOutcome j .ok) :=
  afterEnded first second [.ok] { h.report text with } rfl rfl rfl rfl

theorem jobLineAlike (h : Poised session i j a b) (command : Text) (piped : Option (List Text))
    (report : JobId → Text) :
    AfterAlike session i j a b
      (((a.startJob session command piped).2.printAt session none .output
        (report (a.startJob session command piped).1)).2.recordOutcome i .ok)
      (((b.startJob session command piped).2.printAt session none .output
        (report (b.startJob session command piped).1)).2.recordOutcome j .ok) := by
  obtain ⟨same, alike⟩ := startedAlike h.alike command piped
  have outcomes (s : Shell) : (s.startJob session command piped).2.outcomes = s.outcomes := by
    obtain ⟨jobs, ready, started⟩ := OwnRequests.jobStarted s session command piped
    rw [started]
  rw [same]
  exact (reportedAlike alike (Shell.turnStarted h.first session command piped)
    (Shell.turnStarted h.second session command piped) _).since (outcomes a) (outcomes b)

theorem commandLineAlike (h : Poised session i j a b) (line : Text) (piped : Option (List Text)) :
    AfterAlike session i j a b
      ((a.beginScope session).2.dispatch i session (.foreground (a.beginScope session).1) line piped)
      ((b.beginScope session).2.dispatch j session (.foreground (b.beginScope session).1) line piped) := by
  have kept (s : Shell) : Shell.Kept s (s.beginScope session).2 := Shell.keptOnScopes s _
  obtain ⟨alike, placed⟩ := h.alike.begun h.left h.right h.apart h.away
  have left := Shell.soundKept h.left (kept a) (Shell.cleanBegin h.left.toClean session)
  have right := Shell.soundKept h.right (kept b) (Shell.cleanBegin h.right.toClean session)
  exact (dispatchAlike left right (h.first.kept (kept a)) (h.second.kept (kept b)) alike placed line
    piped).since (kept a).outcomes (kept b).outcomes

theorem startLineAlike (h : Poised session i j a b) (typed : Text) (piped : Option (List Text)) :
    AfterAlike session i j a b (a.startLine i session typed piped) (b.startLine j session typed piped) := by
  unfold Shell.startLine
  dsimp only
  split
  · exact afterEnded h.first h.second [.ok] { h.alike with } rfl rfl rfl rfl
  have remembered : Poised session i j (a.remember session (Text.trim typed))
      (b.remember session (Text.trim typed)) := by
    unfold Shell.remember
    rw [h.alike.config]
    exact h.onSession _
  -- Only what the remembered line has made of either shell counts from here on.
  have left : (a.remember session (Text.trim typed)).outcomes = a.outcomes := rfl
  have right : (b.remember session (Text.trim typed)).outcomes = b.outcomes := rfl
  generalize a.remember session (Text.trim typed) = s at *
  generalize b.remember session (Text.trim typed) = t at *
  refine AfterAlike.since left right ?_
  rcases assignedAlike remembered.alike (Text.trim typed) with
    ⟨none, absent⟩ | ⟨assignment, store, made, same⟩
  · rw [none, absent]
    dsimp only
    split
    · exact jobLineAlike remembered _ piped fun id => '[' :: id.display ++ "] started"
    · exact commandLineAlike remembered _ piped
  · rw [made, same]
    have stored := remembered.onSession fun data => { data with store }
    have reported := reportedAlike stored.alike stored.first stored.second (Markup.escape assignment.report)
    exact AfterAlike.since (x := s.onStore session fun _ => store) (y := t.onStore session fun _ => store)
      rfl rfl reported

theorem TasksAlike.stay {s t : Shell} {v w : Shell.Task} (tasks : TasksAlike session a b v w)
    (alike : Alike session s t) (left : s.scopes = a.scopes) (right : t.scopes = b.scopes)
    (asked : s.requests = a.requests) (again : t.requests = b.requests) : TasksAlike session s t v w := by
  cases tasks with
  | line text piped => exact .line text piped
  | job id signal text piped => exact .job id signal text piped
  | program own together p =>
    cases own
    exact .program rfl (together.next alike left right) p
  | waiting own together waits =>
    cases own
    exact .waiting rfl (together.next alike left right) (waits.stay asked again)

theorem movableAlike {v w : Shell.Task} (tasks : TasksAlike session a b v w) : b.canMove w = a.canMove v := by
  cases tasks with
  | line | job | program => rfl
  | waiting own together waits =>
    unfold Shell.canMove
    dsimp only
    rw [happenedAlike together waits, together.cancelled]

theorem standingFiled {s : Shell} {owners : List SessionId} (filed : OwnRequests.Filed s owners)
    {id : TaskId} {wait : Wait} (listed : (id, .waiting c wait) ∈ s.tasks) : Standing s c.session wait :=
  fun request waited waits =>
    filed.registered.pending _ _ (filed.files _ listed request waited).1 waits

theorem turnsAlike (ha : Shell.Reachable a) (hb : Shell.Reachable b) (h : Alike session a b)
    {v w : Shell.Task} (found : a.tasks.lookup i = some v) (there : b.tasks.lookup j = some w)
    (tasks : TasksAlike session a b v w) (tie : Shell.Tie) :
    AfterAlike session i j a b (a.resume tie i) (b.resume tie j) := by
  have left := Shell.soundReachable ha
  have right := Shell.soundReachable hb
  have tidy : Shell.TaskTidy v := left.tidy _ (Shell.lookedUp found)
  have poised : Poised session i j (a.withdraw i) (b.withdraw j) :=
    ⟨{ h with }, Shell.soundWithdraw left i, Shell.soundWithdraw right j, (ScopeTokens.apartReachable ha :),
      (ScopeTokens.apartReachable hb :), Shell.turnWithdrawn left (Shell.lookedUp found),
      Shell.turnWithdrawn right (Shell.lookedUp there)⟩
  unfold Shell.resume
  rw [found, there]
  dsimp only
  rw [movableAlike tasks]
  split
  · have taken := tasks.stay poised.alike rfl rfl rfl rfl
    refine AfterAlike.since (x := a.withdraw i) (y := b.withdraw j) rfl rfl ?_
    cases taken with
    | line text piped => exact startLineAlike poised text piped
    | job id signal text piped =>
      exact dispatchAlike poised.left poised.right poised.first poised.second poised.alike (.job id signal)
        text piped
    | program own together p =>
      cases own
      exact leaveAlike poised.first poised.second (Shell.keptPerform _ _ _ _) (Shell.keptPerform _ _ _ _)
        (performAlike poised.left.toClean poised.right.toClean together tidy _)
    | waiting own together waits =>
      cases own
      obtain ⟨owners, filed⟩ := OwnRequests.filedReachable ha
      obtain ⟨others, same⟩ := OwnRequests.filedReachable hb
      have stands := standingFiled filed (Shell.lookedUp found)
      have standing := together.session ▸ standingFiled same (Shell.lookedUp there)
      exact leaveAlike poised.first poised.second (Shell.keptGoOn _ _ _ _) (Shell.keptGoOn _ _ _ _)
        (goOnAlike poised.left.toClean poised.right.toClean together waits tidy stands standing tie)
  · refine ⟨{ h with }, ⟨[], (List.append_nil _).symm, (List.append_nil _).symm⟩, ?_⟩
    change RestAlike _ _ _ (a.tasks.lookup i) (b.tasks.lookup j)
    rw [found, there]
    exact .some (tasks.stay { h with } rfl rfl rfl rfl)

theorem deliverTakes (r : Requests) (session : SessionId) (line : Text) :
    (r.deliver session line).1 = r.hasPending session ∧
      (r.deliver session line).2.hasPending session = false := by
  constructor
  · unfold Requests.deliver Requests.hasPending
    cases r.pending.get? session with
    | none => rfl
    | some id =>
      dsimp only
      split
      · rename_i waits
        exact (decide_eq_true waits).symm
      · rename_i settled
        exact (decide_eq_false settled).symm
  · unfold Requests.hasPending
    rw [deliverPending, if_pos rfl]
    rfl

theorem inputAlike (h : Alike session a b) (line : Text) :
    ((b.handleInput session line).1 = .consumed ↔ (a.handleInput session line).1 = .consumed) ∧
      Alike session (a.handleInput session line).2 (b.handleInput session line).2 := by
  obtain ⟨taken, unheard⟩ := deliverTakes a.requests session line
  obtain ⟨same, absent⟩ := deliverTakes b.requests session line
  have delivered := h.requests (absent.trans unheard.symm)
  unfold Shell.handleInput
  dsimp only
  rw [taken, same, h.pending]
  split
  · exact ⟨Iff.rfl, delivered.wake⟩
  · exact ⟨⟨nofun, nofun⟩, { delivered with }⟩

theorem cancelAlike (ha : Shell.Reachable a) (hb : Shell.Reachable b) (h : Alike session a b) :
    (b.cancel session).1 = (a.cancel session).1 ∧
      Alike session (a.cancel session).2 (b.cancel session).2 := by
  have outcome {s : Shell} (reachable : Shell.Reachable s) :
      (s.cancel session).1 = told (asked? s.scopes session) := by
    unfold Shell.cancel
    rw [Captured.silentCancel (Shell.soundReachable reachable).scopes]
    exact interruptTold s.scopes (ScopeTokens.apartReachable reachable)
  obtain ⟨first, left⟩ := Shell.cancelledQuietly (Shell.soundReachable ha).toClean session
  obtain ⟨second, right⟩ := Shell.cancelledQuietly (Shell.soundReachable hb).toClean session
  refine ⟨by rw [outcome ha, outcome hb, h.scope], ?_⟩
  rw [left, right]
  refine { h with scope := ?_ }
  change asked? (b.scopes.interrupt session).2.2 session = asked? (a.scopes.interrupt session).2.2 session
  rw [askedInterrupted _ (ScopeTokens.apartReachable ha), askedInterrupted _ (ScopeTokens.apartReachable hb),
    h.scope]

theorem closeAlike (left : Clean a) (right : Clean b) (h : Alike session a b) :
    Alike session (a.closeSession session) (b.closeSession session) := by
  obtain ⟨first, closed⟩ := Shell.closedQuietly left session
  obtain ⟨second, same⟩ := Shell.closedQuietly right session
  have pending (r : Requests) : (r.cancel session).2.hasPending session = false := by
    unfold Requests.hasPending
    rw [cancelPending, if_pos rfl]
    rfl
  have gone {κ : Type} (dict : Dict SessionId κ) : (dict.erase session).get? session = none := by
    rw [Dict.getErase, if_pos rfl]
  rw [closed, same]
  refine { h with
    data := (gone _).trans (gone _).symm
    buffer := (gone _).trans (gone _).symm
    exits := by simp
    scope := (askedDiscarded _ right.scopes).trans (askedDiscarded _ left.scopes).symm
    pending := (pending _).trans (pending _).symm
    jobs := ?_ }
  change Shell.killEach b.jobs b.wall (b.jobs.runningIn session) =
    Shell.killEach a.jobs a.wall (a.jobs.runningIn session)
  rw [h.jobs, h.wall]

end ConsoleShell.AlikeTurns
