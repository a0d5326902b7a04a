import ConsoleShell.Proofs.CalledLines
import ConsoleShell.Proofs.PlainRuns
import ConsoleShell.Proofs.TypedLines

/-! Questions that are asked until the answer is clear. A command that waits for an answer takes every line of
its session, one by one, and nobody else can move till it has looked at the line: it asks again, for a new
line, or it says what it was told and is done. So of all lines that are handed in, it takes those up to the
first clear one and no others. -/
namespace ConsoleShell.ClearAnswers
open Actions
open CalledLines
open LineWaiting
open PlainRuns (Heard)
open Shell (Reachable)
open TypedLines

variable {s t u w : Shell} {c : Invocation} {id : TaskId} {task : Shell.Task} {session : SessionId}
  {request : RequestId} {line : Text}

def reply (yes : Bool) : Program := .say (if yes then "yes" else "no") .finish

def Replies : Program → Prop
  | .confirm _ next => next = reply
  | _ => True

theorem repliesBrief {p : Program} (brief : Brief p) : Replies p := by
  cases p <;> trivial

theorem repliesOther {p : Program} {name : Text} (heedful : Heedful name p) (other : name ≠ "confirm") :
    Replies p := by
  cases p <;> trivial

theorem everyReplies : Every Replies := by
  intro d mem arguments caller
  by_cases asks : d = Builtin.confirm
  · subst asks
    exact .inr ⟨rfl, fun _ => ⟨trivial, fun _ => trivial⟩⟩
  · have other : d.name ≠ "confirm" := fun named =>
      asks (Crashes.declaredOnce mem (by simp [Builtin.all]) named)
    rcases heedfulCommands mem with rfl | rfl | heedful
    · exact .inr ((briefHistory arguments caller).mono fun _ => repliesBrief)
    · exact .inr ⟨trivial, trivial⟩
    · exact calledMono (heedful arguments caller) fun _ naming =>
        repliesOther (namingHere (fun _ _ _ => trivial) naming) other

structure Asking (s : Shell) (session : SessionId) (id : TaskId) (c : Invocation) (request : RequestId) :
    Prop where
  stands : (id, .waiting c (.answer request reply)) ∈ s.tasks
  own : c.session = session
  named : c.command = some ("confirm" : Text)
  place : c.origin.job? = none

def Waits (s : Shell) (session : SessionId) (id : TaskId) : Prop :=
  ∃ c request next, (id, .waiting c (.answer request next)) ∈ s.tasks ∧ c.session = session

theorem Asking.asks (asking : Asking s session id c request) :
    Asks session (.waiting c (.answer request reply)) request :=
  .confirm asking.own asking.named

theorem Waits.asking (reachable : Reachable s) (waits : Waits s session id) :
    ∃ c request, Asking s session id c request := by
  obtain ⟨c, request, next, stands, own⟩ := waits
  obtain ⟨-, message, each⟩ := eachReachable everyReplies reachable _ stands
  obtain ⟨name, named, other, heedful⟩ := Heedful.heedfulReachable reachable _ stands
  obtain ⟨owners, filed⟩ := OwnRequests.filedReachable reachable
  have place := (filed.files _ stands request rfl).2
  have same : next = reply := each.here
  have called : name = "confirm" := heedful.here
  exact ⟨c, request, same ▸ stands, own, called ▸ named, place⟩

/- Tasks have their turns, in any order. -/
inductive Rests : Shell → Shell → Prop where
  | still {s : Shell} (still : Still s) : Rests s s
  | turn {s t : Shell} (tie : Shell.Tie) (id : TaskId) (later : Rests (s.resume tie id) t) : Rests s t
  | schedule {s t : Shell} (ready aside : List TaskId) (turnCount : Nat)
      (later : Rests { s with ready, aside, turnCount } t) : Rests s t

theorem restsReachable (reachable : Reachable s) (rests : Rests s t) : Reachable t ∧ Still t := by
  induction rests with
  | still still => exact ⟨reachable, still⟩
  | turn tie id later ih => exact ih (reachable.step (.resume _ tie id))
  | schedule ready aside turnCount later ih => exact ih (reachable.step (.schedule _ ready aside turnCount))

theorem restsStep (rests : Rests s.step t) : Rests s t := by
  have turned (rests : Rests s.takeTurn t) : Rests s t := by
    unfold Shell.takeTurn at rests
    split at rests
    · exact rests
    · exact .schedule s.ready s.aside (s.turnCount + 1) (.turn .event _ rests)
  unfold Shell.step at rests
  dsimp only at rests
  split at rests
  · exact turned (.schedule _ _ _ rests)
  · exact turned rests

theorem restsSteps (n : Nat) (rests : Rests (Shell.steps n s) t) : Rests s t := by
  induction n generalizing s with
  | zero => exact rests
  | succ n ih =>
    unfold Shell.steps at rests
    split at rests
    · exact rests
    · exact restsStep (ih rests)

theorem restsSettle (still : Still s.settle) : Rests s s.settle :=
  .schedule s.ready s.aside 0 (restsSteps _ (.still still))

theorem idleTurn (tie : Shell.Tie) (unique : ∀ task, (id, task) ∈ s.tasks → s.canMove task = false) :
    ∃ ready aside, s.resume tie id = { s with ready, aside } := by
  cases stands : s.tasks.lookup id with
  | none =>
    have same : s.tasks.filter (fun e => !decide (e.1 = id)) = s.tasks := by
      refine List.filter_eq_self.mpr fun e mem => ?_
      have apart := List.lookup_eq_none_iff.mp stands e mem
      simp [Ne.symm (bne_iff_ne.mp apart)]
    unfold Shell.resume
    rw [stands]
    dsimp only
    unfold Shell.withdraw
    rw [same]
    exact ⟨_, _, rfl⟩
  | some task =>
    have still := unique task (Shell.lookedUp stands)
    unfold Shell.resume
    rw [stands]
    dsimp only
    rw [if_neg (by simp [still])]
    exact ⟨_, _, rfl⟩

theorem restsStill (still : Still s) (rests : Rests s t) :
    ∃ ready aside turnCount, t = { s with ready, aside, turnCount } := by
  induction rests with
  | still => exact ⟨_, _, _, rfl⟩
  | @turn s t tie id later ih =>
    obtain ⟨ready, aside, same⟩ := idleTurn tie fun task mem => still (id, task) mem
    rw [same] at ih
    exact ih still
  | schedule ready aside turnCount later ih => exact ih still

structure Told (s : Shell) (session : SessionId) (id : TaskId) (request : RequestId) (line : Text) (w : Shell) :
    Prop where
  same : ∃ requests ready aside turnCount, w = { s with requests, ready, aside, turnCount }
  answered : w.requests.state request = .answered line
  vacant : w.requests.pending.get? session = none
  quiet : ∀ e ∈ s.tasks, e.1 ≠ id → w.canMove e.2 = false

theorem toldInput (reachable : Reachable s) (still : Still s) (asking : Asking s session id c request)
    (line : Text) : (s.handleInput session line).1 = .consumed ∧
      Told s session id request line (s.handleInput session line).2 := by
  have pending := stillPending reachable still asking.stands asking.asks
  obtain ⟨c, wait, -, -, -, waits, -⟩ := stillUnasked still asking.stands asking.asks
  have given := givenAsker reachable still asking.stands asking.asks line
  obtain ⟨ready, taken⟩ :=
    TypedRuns.inputTaken line (stillHasPending reachable still asking.stands asking.asks)
  rw [taken] at given ⊢
  refine ⟨rfl, ⟨_, _, _, _, rfl⟩, ?_, ?_, fun e mem other => ?_⟩
  · exact (deliveredState pending waits line request).trans (if_pos rfl)
  · exact (RequestTurns.deliverPending s.requests session line session).trans (if_pos rfl)
  · exact Bool.eq_false_iff.mpr fun moves => other (congrArg Prod.fst ((given.next e mem).mp moves))

theorem Told.idle (told : Told s session id request line w) (tie : Shell.Tie) {other : TaskId}
    (apart : other ≠ id) : Told s session id request line (w.resume tie other) := by
  have tasks : w.tasks = s.tasks := by
    obtain ⟨requests, ready, aside, turnCount, rfl⟩ := told.same
    rfl
  obtain ⟨ready, aside, same⟩ := idleTurn tie fun task (mem : (other, task) ∈ w.tasks) =>
    told.quiet (other, task) (tasks ▸ mem) apart
  rw [same]
  obtain ⟨requests, _, _, turnCount, rfl⟩ := told.same
  exact ⟨⟨_, _, _, _, rfl⟩, told.answered, told.vacant, told.quiet⟩

theorem Told.schedule (told : Told s session id request line w) (ready aside : List TaskId) (turnCount : Nat) :
    Told s session id request line { w with ready, aside, turnCount } := by
  obtain ⟨requests, _, _, _, rfl⟩ := told.same
  exact ⟨⟨_, _, _, _, rfl⟩, told.answered, told.vacant, told.quiet⟩

/- Whoever cannot move still cannot where no signal, no job and no moment is new, and no request is told. -/
theorem staysQuiet (quiet : w.canMove task = false) (signals : u.scopes.signals = w.scopes.signals)
    (jobs : u.jobs = w.jobs) (clock : u.clock = w.clock)
    (untold : ∀ other, w.requests.state other = .waiting → u.requests.state other = .waiting) :
    u.canMove task = false := by
  cases task with
  | waiting c wait =>
    obtain ⟨early, unasked⟩ := Bool.or_eq_false_iff.mp quiet
    refine Bool.or_eq_false_iff.mpr ⟨?_, ?_⟩
    · cases wait with
      | line request next | answer request next =>
        exact bne_eq_false_iff_eq.mpr (untold request (bne_eq_false_iff_eq.mp early))
      | sleep due stopped next =>
        unfold Shell.hasHappened at early ⊢
        rw [clock]
        exact early
      | job watch next =>
        unfold Shell.hasHappened at early ⊢
        rw [jobs]
        exact early
      | cancel next => rfl
    · unfold Shell.isCancelled at unasked ⊢
      rw [signals, jobs]
      exact unasked
  | watcher watch =>
    unfold Shell.canMove at quiet ⊢
    rw [jobs]
    exact quiet
  | line | job | program => cases quiet

theorem awaitKeeps {r : Requests} (vacant : r.pending.get? session = none) {other : RequestId}
    (waits : r.state other = .waiting) : (r.await session).2.2.state other = .waiting := by
  have known := RequestTurns.knownState r (show r.state other ≠ .closed by simp [waits])
  unfold Requests.await
  rw [vacant]
  unfold Requests.state at waits ⊢
  dsimp only [Option.map_none, Option.getD_none]
  rw [List.getElem?_append_left known]
  exact waits

theorem promptGranted (place : c.origin.job? = none) (unasked : s.isCancelled c.origin = false) (text : Text) :
    ∃ ready, (s.print c .output text).2.awaitLine c = (.ok ⟨s.requests.states.length⟩, { s with
      console := (s.console.print c.session .output text).2
      requests := (s.requests.await c.session).2.2
      ready }) := by
  have printed : (s.print c .output text).2 =
      { s with console := (s.console.print c.session .output text).2 } := by
    unfold Shell.print Shell.printAt
    rw [place]
    rfl
  rw [printed]
  unfold Shell.awaitLine
  cases origin : c.origin with
  | job job signal =>
    rw [origin] at place
    cases place
  | foreground scope =>
    rw [origin] at unasked
    have still : ({ s with console := (s.console.print c.session .output text).2 } : Shell).isCancelled
        (.foreground scope) = false := unasked
    dsimp only
    rw [if_neg (by simp [still])]
    exact ⟨_, rfl⟩

theorem takeAnswered (answered : s.requests.state request = .answered line)
    (next : Text → Shell → Halt × Shell) : Shell.takeLine request s next =
      next line { s with requests := s.requests.setState request .closed } := by
  unfold Shell.takeLine Requests.poll
  rw [answered]

section Proceed

variable (answered : w.requests.state request = .answered line) (place : c.origin.job? = none)

include answered place

theorem proceedUnclear (unclear : Answer.ofLine line = .unclear) (unasked : w.isCancelled c.origin = false)
    (next : Bool → Program) :
    let closed := w.requests.setState request .closed
    ∃ ready, Shell.proceed c w (.answer request next) =
      (.waiting (.answer ⟨closed.states.length⟩ next), { w with
        console := (w.console.print c.session .output Shell.askAgain).2
        requests := (closed.await c.session).2.2
        ready }) := by
  intro closed
  obtain ⟨ready, granted⟩ := promptGranted (s := { w with requests := closed }) place unasked Shell.askAgain
  refine ⟨ready, ?_⟩
  unfold Shell.proceed
  dsimp only
  rw [takeAnswered answered, unclear]
  dsimp only
  rw [granted]

theorem proceedClear {yes : Bool} (clear : Answer.ofLine line = if yes then .yes else .no) :
    Shell.proceed c w (.answer request reply) = (.ended .finished, { w with
      console := (w.console.print c.session .output (if yes then "yes" else "no")).2
      requests := w.requests.setState request .closed }) := by
  unfold Shell.proceed
  dsimp only
  rw [takeAnswered answered, clear]
  have said : Shell.perform c Shell.startedTurn (reply yes)
      { w with requests := w.requests.setState request .closed } = (.ended .finished, { w with
        console := (w.console.print c.session .output (if yes then "yes" else "no")).2
        requests := w.requests.setState request .closed }) := by
    unfold reply
    rw [performSay]
    unfold Shell.print Shell.printAt
    rw [place]
    rfl
  cases yes <;> exact said

end Proceed

structure Reprompted (s : Shell) (session : SessionId) (id : TaskId) (u : Shell) : Prop where
  still : Still u
  waits : Waits u session id
  sessions : u.sessions = s.sessions
  heard : Heard session [(.output, Shell.askAgain)] s u none

structure Settled (s : Shell) (session : SessionId) (id : TaskId) (yes : Bool) (u : Shell) : Prop where
  still : Still u
  done : u.outcome? id = some .ok
  sessions : u.sessions = s.sessions
  heard : Heard session [(.output, if yes then "yes" else "no")] s u none
  idle : u.requests.hasPending session = false

theorem heardHere (console : u.console = (s.console.print session .output line).2) :
    Heard session [(.output, line)] s u none := by
  show u.console.buffer? session = _
  rw [console]
  exact PlainRuns.heardPrint s session none .output line

section Turn

variable (told : Told s session id request line w) (asking : Asking s session id c request)
  (reachable : Reachable s) (still : Still s)

include told

theorem closedKeeps {other : RequestId} (waits : w.requests.state other = .waiting) :
    (w.requests.setState request .closed).state other = .waiting := by
  have apart : other ≠ request := fun same => by
    rw [same, told.answered] at waits
    cases waits
  rw [RequestTurns.stateClosed, if_neg apart]
  exact waits

theorem othersQuiet {e : TaskId × Shell.Task} (mem : e ∈ (w.withdraw id).tasks)
    (signals : u.scopes.signals = w.scopes.signals) (jobs : u.jobs = w.jobs) (clock : u.clock = w.clock)
    (untold : ∀ other, w.requests.state other = .waiting → u.requests.state other = .waiting) :
    u.canMove e.2 = false := by
  obtain ⟨listed, apart⟩ := List.mem_filter.mp mem
  have tasks : w.tasks = s.tasks := by
    obtain ⟨requests, ready, aside, turnCount, rfl⟩ := told.same
    rfl
  have quiet := told.quiet e (tasks ▸ listed) (by simpa using apart)
  exact staysQuiet quiet signals jobs clock untold

include asking reachable still

theorem toldTurn (tie : Shell.Tie) : w.resume tie id =
    Shell.leave id c (Shell.proceed c (w.withdraw id) (.answer request reply)) := by
  obtain ⟨_, _, same, -, -, -, unasked⟩ := stillUnasked still asking.stands asking.asks
  cases same
  have answered := told.answered
  have happened : w.hasHappened (.answer request reply) = true := bne_iff_ne.mpr (by simp [answered])
  obtain ⟨requests, ready, aside, turnCount, rfl⟩ := told.same
  exact happenedTurn (s := { s with requests, ready, aside, turnCount })
    (FiredScopes.taskFound reachable asking.stands) happened unasked tie

theorem toldUnclear (unclear : Answer.ofLine line = .unclear) (tie : Shell.Tie) :
    Reprompted s session id (w.resume tie id) := by
  obtain ⟨_, _, same, -, -, -, unasked⟩ := stillUnasked still asking.stands asking.asks
  cases same
  have unasked : w.isCancelled c.origin = false := by
    obtain ⟨requests, ready, aside, turnCount, rfl⟩ := told.same
    exact unasked
  have vacant : (w.requests.setState request .closed).pending.get? session = none := told.vacant
  obtain ⟨ready, went⟩ := proceedUnclear (w := w.withdraw id) told.answered asking.place unclear unasked reply
  have own := asking.own
  rw [own] at went
  rw [toldTurn told asking reachable still tie, went]
  have fresh := RequestTurns.newWaits (w.requests.setState request .closed) session
  refine ⟨fun e mem => ?_, ?_, ?_, heardHere ?_⟩
  · rcases List.mem_append.mp mem with old | new
    · exact othersQuiet told old rfl rfl rfl fun other waits => awaitKeeps vacant (closedKeeps told waits)
    · cases List.mem_singleton.mp new
      exact Bool.or_eq_false_iff.mpr ⟨bne_eq_false_iff_eq.mpr fresh, unasked⟩
  · exact ⟨c, _, reply, List.mem_append_right _ List.mem_cons_self, own⟩
  · obtain ⟨requests, ready, aside, turnCount, rfl⟩ := told.same
    rfl
  · obtain ⟨requests, ready, aside, turnCount, rfl⟩ := told.same
    rfl

theorem toldClear {yes : Bool} (clear : Answer.ofLine line = if yes then .yes else .no) (tie : Shell.Tie) :
    Settled s session id yes (w.resume tie id) := by
  have turn := Shell.turnWithdrawn (Shell.soundReachable reachable) asking.stands
  have went := proceedClear (w := w.withdraw id) told.answered asking.place clear
  have own := asking.own
  rw [own] at went
  cases origin : c.origin with
  | job job signal =>
    have place := asking.place
    rw [origin] at place
    cases place
  | foreground scope =>
    have ended : Shell.leave id c (Shell.proceed c (w.withdraw id) (.answer request reply)) =
        (Shell.proceed c (w.withdraw id) (.answer request reply)).2.conclude id session (.foreground scope) .ok := by
      rw [Shell.leaveCommand (congrArg Prod.fst went) asking.named, own, origin]
      rfl
    rw [toldTurn told asking reachable still tie, ended, went]
    have signals : ((w.scopes.finish session scope.id).2).signals = w.scopes.signals := by
      unfold Scopes.finish
      split <;> rfl
    refine ⟨fun e mem => ?_, ?_, ?_, heardHere ?_, ?_⟩
    · exact othersQuiet told mem signals rfl rfl fun other waits => closedKeeps told waits
    · have outcomes : w.outcomes = s.outcomes := by
        obtain ⟨requests, ready, aside, turnCount, rfl⟩ := told.same
        rfl
      unfold Shell.outcome?
      rw [Shell.concludeRecords]
      show (w.outcomes ++ [(id, Outcome.ok)]).lookup id = some .ok
      rw [outcomes]
      exact QuotedEcho.lookupAdded turn.unsettled
    · obtain ⟨requests, ready, aside, turnCount, rfl⟩ := told.same
      rfl
    · obtain ⟨requests, ready, aside, turnCount, rfl⟩ := told.same
      rfl
    · show (w.requests.setState request .closed).hasPending session = false
      unfold Requests.hasPending
      rw [show (w.requests.setState request .closed).pending.get? session = none from told.vacant]
      rfl

end Turn

/- In whatever order tasks have their turns, what counts is the one turn of the command. -/
theorem toldRests (asking : Asking s session id c request) {P : Shell → Prop}
    (told : Told s session id request line w) (rests : Rests w t)
    (turned : ∀ w, Told s session id request line w → ∀ tie, Still (w.resume tie id) ∧ P (w.resume tie id))
    (kept : ∀ u ready aside turnCount, P u → P { u with ready, aside, turnCount }) : P t := by
  induction rests with
  | @still w still =>
    have stands : (id, .waiting c (.answer request reply)) ∈ w.tasks := by
      have there := asking.stands
      obtain ⟨requests, ready, aside, turnCount, rfl⟩ := told.same
      exact there
    have early := (Bool.or_eq_false_iff.mp (still _ stands)).1
    rw [show w.hasHappened (.answer request reply) = true from bne_iff_ne.mpr (by simp [told.answered])] at early
    cases early
  | @turn w t tie other later ih =>
    by_cases own : other = id
    · subst own
      obtain ⟨rests, held⟩ := turned w told tie
      obtain ⟨ready, aside, turnCount, rfl⟩ := restsStill rests later
      exact kept _ _ _ _ held
    · exact ih (told.idle tie own)
  | schedule ready aside turnCount later ih => exact ih (told.schedule ready aside turnCount)

section Rounds

variable (reachable : Reachable s) (still : Still s) (asking : Asking s session id c request)

include reachable still asking

theorem restsUnclear (unclear : Answer.ofLine line = .unclear)
    (rests : Rests (s.handleInput session line).2 t) : Reprompted s session id t := by
  obtain ⟨-, told⟩ := toldInput reachable still asking line
  refine toldRests asking told rests (fun w told tie => ?_) fun u ready aside turnCount again => ?_
  · have again := toldUnclear told asking reachable still unclear tie
    exact ⟨again.still, again⟩
  · exact ⟨again.still, again.waits, again.sessions, again.heard⟩

theorem restsClear {yes : Bool} (clear : Answer.ofLine line = if yes then .yes else .no)
    (rests : Rests (s.handleInput session line).2 t) : Settled s session id yes t := by
  obtain ⟨-, told⟩ := toldInput reachable still asking line
  refine toldRests asking told rests (fun w told tie => ?_) fun u ready aside turnCount settled => ?_
  · have settled := toldClear told asking reachable still clear tie
    exact ⟨settled.still, settled⟩
  · exact ⟨settled.still, settled.done, settled.sessions, settled.heard, settled.idle⟩

theorem restsSomehow (line : Text) : ∃ t, Rests (s.handleInput session line).2 t := by
  obtain ⟨-, told⟩ := toldInput reachable still asking line
  refine ⟨_, .turn .event id (.still ?_)⟩
  have clear {yes : Bool} (read : Answer.ofLine line = if yes then .yes else .no) :=
    (toldClear told asking reachable still read .event).still
  cases read : Answer.ofLine line with
  | yes => exact clear (show _ = if true then Answer.yes else .no from read)
  | no => exact clear (show _ = if false then Answer.yes else .no from read)
  | unclear => exact (toldUnclear told asking reachable still read .event).still

end Rounds

/- Lines are handed in one after the other, each with what became of it, and nothing can move any more before the
next one. -/
inductive Typing (session : SessionId) : Shell → List (Text × InputOutcome) → Shell → Prop where
  | none {s : Shell} : Typing session s [] s
  | line {s t u : Shell} {line : Text} {rest : List (Text × InputOutcome)}
      (rests : Rests (s.handleInput session line).2 t) (later : Typing session t rest u) :
      Typing session s ((line, (s.handleInput session line).1) :: rest) u

def reprompts (count : Nat) : List (OutputKind × Text) := List.replicate count (.output, Shell.askAgain)

def verdict (yes : Bool) : List (OutputKind × Text) := [(.output, if yes then "yes" else "no")]

def AllUnclear (log : List (Text × InputOutcome)) : Prop := ∀ e ∈ log, Answer.ofLine e.1 = .unclear

variable {log : List (Text × InputOutcome)}

structure StillAsks (s u : Shell) (session : SessionId) (id : TaskId) (log : List (Text × InputOutcome)) :
    Prop where
  consumed : ∀ e ∈ log, e.2 = .consumed
  still : Still u
  waits : Waits u session id
  pending : u.hasPendingInput session = true
  sessions : u.sessions = s.sessions
  heard : Heard session (reprompts log.length) s u none

structure Over (s u : Shell) (session : SessionId) (id : TaskId) (log : List (Text × InputOutcome)) (yes : Bool)
    (last : InputOutcome) : Prop where
  consumed : (∀ e ∈ log, e.2 = .consumed) ∧ last = .consumed
  done : u.outcome? id = some .ok
  sessions : u.sessions = s.sessions
  heard : Heard session (reprompts log.length ++ verdict yes) s u none
  idle : u.hasPendingInput session = false
  next : ∀ line, Dispatched u session line (u.handleInput session line)

theorem typingReachable (reachable : Reachable s) (typing : Typing session s log u) : Reachable u := by
  induction typing with
  | none => exact reachable
  | line rests later ih => exact ih (restsReachable (reachable.step (.input _ _ _)) rests).1

theorem typingUnclear (reachable : Reachable s) (still : Still s) (waits : Waits s session id)
    (typing : Typing session s log u) (unclear : AllUnclear log) : StillAsks s u session id log := by
  induction typing with
  | @none s =>
    obtain ⟨c, request, asking⟩ := waits.asking reachable
    exact ⟨nofun, still, waits, stillHasPending reachable still asking.stands asking.asks, rfl, .nothing rfl rfl⟩
  | @line s t u line rest rests later ih =>
    obtain ⟨first, others⟩ := List.forall_mem_cons.mp unclear
    obtain ⟨c, request, asking⟩ := waits.asking reachable
    have again := restsUnclear reachable still asking first rests
    obtain ⟨after, -⟩ := restsReachable (reachable.step (.input _ _ _)) rests
    have rest := ih after again.still again.waits others
    exact {
      consumed := List.forall_mem_cons.mpr ⟨(toldInput reachable still asking line).1, rest.consumed⟩
      still := rest.still
      waits := rest.waits
      pending := rest.pending
      sessions := rest.sessions.trans again.sessions
      heard := again.heard.trans rest.heard }

theorem typingSplit {before after : List (Text × InputOutcome)} (typing : Typing session s (before ++ after) u) :
    ∃ t, Typing session s before t ∧ Typing session t after u := by
  induction before generalizing s with
  | nil => exact ⟨s, .none, typing⟩
  | cons first rest ih =>
    cases typing with
    | line rests later =>
      obtain ⟨t, here, there⟩ := ih later
      exact ⟨t, .line rests here, there⟩

theorem typingClear {yes : Bool} {last : InputOutcome} (reachable : Reachable s) (still : Still s)
    (waits : Waits s session id) (typing : Typing session s (log ++ [(line, last)]) u) (unclear : AllUnclear log)
    (clear : Answer.ofLine line = if yes then .yes else .no) : Over s u session id log yes last := by
  obtain ⟨t, before, after⟩ := typingSplit typing
  have asked := typingUnclear reachable still waits before unclear
  have there := typingReachable reachable before
  obtain ⟨c, request, asking⟩ := asked.waits.asking there
  cases after with
  | line rests later =>
    cases later
    have settled := restsClear there asked.still asking clear rests
    have reached := (restsReachable (there.step (.input _ _ _)) rests).1
    refine ⟨⟨asked.consumed, (toldInput there asked.still asking line).1⟩, settled.done,
      settled.sessions.trans asked.sessions, asked.heard.trans settled.heard, settled.idle, fun next => ?_⟩
    obtain ⟨ready, dispatched⟩ := TypedRuns.inputDispatched next settled.idle
    refine ⟨fun e mem same => ?_, _, ready, dispatched⟩
    exact Nat.lt_irrefl _ (same ▸ (FiredScopes.uniqueReachable reached).numbered e mem)

theorem typingGoes (reachable : Reachable s) (still : Still s) (waits : Waits s session id) (last : Text)
    {lines : List Text} (unclear : ∀ line ∈ lines, Answer.ofLine line = .unclear) :
    ∃ log outcome u, log.map Prod.fst = lines ∧ Typing session s (log ++ [(last, outcome)]) u := by
  induction lines generalizing s with
  | nil =>
    obtain ⟨c, request, asking⟩ := waits.asking reachable
    obtain ⟨t, rests⟩ := restsSomehow reachable still asking last
    exact ⟨[], _, t, rfl, .line rests .none⟩
  | cons line rest ih =>
    obtain ⟨first, others⟩ := List.forall_mem_cons.mp unclear
    obtain ⟨c, request, asking⟩ := waits.asking reachable
    obtain ⟨t, rests⟩ := restsSomehow reachable still asking line
    have again := restsUnclear reachable still asking first rests
    obtain ⟨log, outcome, u, lines, typing⟩ :=
      ih (restsReachable (reachable.step (.input _ _ _)) rests).1 again.still again.waits others
    exact ⟨(line, _) :: log, outcome, u, by rw [List.map_cons, lines], .line rests typing⟩

def message (call : Call) : Text :=
  if call.arguments.positionals.isEmpty then "Continue?" else Text.join [' '] call.arguments.positionals

variable {typed : Text} {piped : Option (List Text)} {call : Call}

theorem performConfirm {question : Text} (left : Nat) (next : Bool → Program)
    (granted : (s.print c .output (Shell.question question)).2.awaitLine c = (.ok request, u)) :
    Shell.perform c left (.confirm question next) s = (.waiting (.answer request next), u) := by
  unfold Shell.perform
  dsimp only
  rw [granted]

theorem questionAsked {task : TaskId} (reachable : Reachable s)
    (calls : Calls s task session typed piped call) (named : call.command.name = "confirm") (tie : Shell.Tie) :
    Waits (s.resume tie task) session task ∧
      Heard session [(.output, Shell.question (message call))] s (s.resume tie task) none := by
  have handler := calls.handler reachable (d := Builtin.confirm) (by simp [Builtin.all]) named
  have unasked := openedUnasked reachable task session typed
  obtain ⟨ready, granted⟩ := promptGranted (c := called s task session typed call) rfl unasked
    (Shell.question (message call))
  have program : Program.confirm (message call) reply = call.command.handler call.arguments ⟨none, piped⟩ := by
    rw [handler]
    rfl
  have run := performConfirm Shell.fullTurn reply granted
  rw [program] at run
  rw [calls.waits tie run]
  refine ⟨⟨_, _, _, List.mem_append_right _ List.mem_cons_self, rfl⟩, heardHere ?_⟩
  show ((s.opened task session typed).2.console.print session .output _).2 = _
  rw [openedConsole reachable]

structure Confirms (s : Shell) (task : TaskId) (session : SessionId) (message : Text) (asked : Shell) : Prop where
  waits : Waits asked session task
  question : Heard session [(.output, Shell.question message)] s asked none
  unclear : ∀ t log u, Reachable t → Still t → Waits t session task → Typing session t log u →
    AllUnclear log → StillAsks t u session task log
  clear : ∀ t log line last (yes : Bool) u, Reachable t → Still t → Waits t session task →
    Typing session t (log ++ [(line, last)]) u → AllUnclear log →
    (Answer.ofLine line = if yes then .yes else .no) → Over t u session task log yes last
  inOrder : ∀ t between log line last (yes : Bool) u, Reachable t → Still t → Waits t session task →
    Heard session between asked t none → Typing session t (log ++ [(line, last)]) u → AllUnclear log →
    (Answer.ofLine line = if yes then .yes else .no) →
    Heard session ([(.output, Shell.question message)] ++ (between ++ (reprompts log.length ++ verdict yes))) s u none
  goes : ∀ t lines last, Reachable t → Still t → Waits t session task →
    (∀ line ∈ lines, Answer.ofLine line = .unclear) →
    ∃ log outcome u, log.map Prod.fst = lines ∧ Typing session t (log ++ [(last, outcome)]) u

theorem confirmsOnce {task : TaskId} (reachable : Reachable s) (calls : Calls s task session typed piped call)
    (named : call.command.name = "confirm") (tie : Shell.Tie) :
    Confirms s task session (message call) (s.resume tie task) := by
  obtain ⟨waits, question⟩ := questionAsked reachable calls named tie
  exact {
    waits
    question
    unclear := fun t log u there still waits typing unclear => typingUnclear there still waits typing unclear
    clear := fun t log line last yes u there still waits typing unclear clear =>
      typingClear there still waits typing unclear clear
    inOrder := fun t between log line last yes u there still waits heard typing unclear clear =>
      question.trans (heard.trans (typingClear there still waits typing unclear clear).heard)
    goes := fun t lines last there still waits unclear => typingGoes there still waits last unclear }

def confirmLine : Text := "confirm sure"

theorem confirmsOnceSure :
    let s := (fresh.execute ⟨0⟩ confirmLine none).2
    let asked := s.resume .event ⟨0⟩
    ∃ call, Calls s ⟨0⟩ ⟨0⟩ confirmLine none call ∧ message call = "sure" ∧
      Confirms s ⟨0⟩ ⟨0⟩ "sure" asked ∧ Still asked ∧ ∃ last other u,
        Typing ⟨0⟩ asked [("maybe", last), (" Yes", other)] u ∧
          Over asked u ⟨0⟩ ⟨0⟩ [("maybe", last)] true other := by
  intro s asked
  have seen : ((s.opened ⟨0⟩ ⟨0⟩ confirmLine).2.readCall ⟨0⟩ (Text.trim confirmLine)).map
      (Option.map fun call => (call.command.name, message call)) = .ok (some ("confirm", "sure")) := by
    decide +kernel
  obtain ⟨call, read, same⟩ := callSeen _ seen
  obtain ⟨named, asks⟩ := Prod.mk.inj same
  have reachable : Reachable s := freshReachable.step (.execute _ _ _ _)
  have stands := executedStands freshReachable ⟨0⟩ confirmLine none
  rw [freshCount] at stands
  have calls : Calls s ⟨0⟩ ⟨0⟩ confirmLine none call := ⟨stands, by decide +kernel, by decide +kernel, read⟩
  have confirms := confirmsOnce reachable calls named .event
  rw [asks] at confirms
  have still : Still asked := by decide +kernel
  have there : Reachable asked := reachable.step (.resume _ _ _)
  have unclear : ∀ line ∈ (["maybe"] : List Text), Answer.ofLine line = .unclear := by decide +kernel
  have clear : Answer.ofLine " Yes" = if true then .yes else .no := by decide +kernel
  obtain ⟨log, other, u, lines, typing⟩ := confirms.goes asked ["maybe"] " Yes" there still confirms.waits unclear
  obtain ⟨⟨line, last⟩, rfl, same⟩ := List.map_eq_singleton_iff.mp lines
  cases (same : line = "maybe")
  have first : AllUnclear [("maybe", last)] := List.forall_mem_singleton.mpr (unclear _ List.mem_cons_self)
  exact ⟨call, calls, asks, confirms, still, last, other, u, typing,
    confirms.clear asked _ _ _ true u there still confirms.waits typing first clear⟩

end ConsoleShell.ClearAnswers
