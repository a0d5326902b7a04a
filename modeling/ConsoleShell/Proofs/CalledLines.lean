import ConsoleShell.Proofs.Crashes
import ConsoleShell.Proofs.QuotedEcho
import ConsoleShell.Proofs.Refusal

/-! Lines that call a command. In a shell without commands but its own nobody is told when the command
before is asked to stop, so up to the command's first action nothing at the consoles and in the jobs
has changed; what the whole turn comes to is what the command's program does from there. -/
namespace ConsoleShell.CalledLines
open Markup Shell

/- A typed line that is neither an assignment nor a job calls a command when its turn comes. -/
structure Calls (s : Shell) (task : TaskId) (session : SessionId) (typed : Text)
    (piped : Option (List Text)) (call : Call) : Prop where
  stands : s.tasks.lookup task = some (.line session typed piped)
  plain : s.assign? session (Text.trim typed) = none
  foreground : Background.command? (Text.trim typed) = none
  read : (s.opened task session typed).2.readCall session (Text.trim typed) = .ok (some call)

def called (s : Shell) (task : TaskId) (session : SessionId) (typed : Text) (call : Call) : Invocation :=
  ⟨session, .foreground (s.opened task session typed).1, some call.command.name⟩

variable {s : Shell} {task : TaskId} {session : SessionId} {typed : Text} {piped : Option (List Text)}
  {call : Call}

theorem Calls.begins (calls : Calls s task session typed piped call) :
    Begins s task session (.foreground (s.opened task session typed).1) (Text.trim typed) piped
      (s.opened task session typed).2 :=
  .line calls.stands

theorem Calls.words (calls : Calls s task session typed piped call) : Text.trim typed ≠ [] := by
  intro empty
  have nothing (t : Shell) : t.readCall session [] = .ok none := by
    have expanded : t.expandLine session [] = [] := by
      unfold Shell.expandLine
      split
      · rfl
      · rfl
    unfold Shell.readCall
    rw [expanded]
    rfl
  have read := calls.read
  rw [empty, nothing] at read
  cases read

theorem Calls.turn (calls : Calls s task session typed piped call) (tie : Tie) :
    s.resume tie task = leave task (called s task session typed call)
      (perform (called s task session typed call) fullTurn
        (call.command.handler call.arguments ⟨none, piped⟩) (s.opened task session typed).2) := by
  rw [startsCommand tie calls.stands calls.words calls.plain calls.foreground]
  unfold Shell.dispatch
  rw [calls.read]
  rfl

theorem Calls.ends (calls : Calls s task session typed piped call) (tie : Tie) {ending : Ending} {t : Shell}
    (run : perform (called s task session typed call) fullTurn
      (call.command.handler call.arguments ⟨none, piped⟩) (s.opened task session typed).2 = (.ended ending, t)) :
    s.resume tie task = t.conclude task session (.foreground (s.opened task session typed).1)
      (ending.outcome call.command.name) := by
  rw [calls.turn tie, run]
  rfl

theorem Calls.recorded (reachable : Reachable s) (calls : Calls s task session typed piped call) {t : Shell}
    (same : t.outcomes = s.outcomes) (outcome : Outcome) :
    (t.conclude task session (.foreground (s.opened task session typed).1) outcome).outcome? task =
      some outcome := by
  have turn := turnWithdrawn (soundReachable reachable) (lookedUp calls.stands)
  unfold Shell.outcome?
  rw [concludeRecords, same]
  exact QuotedEcho.lookupAdded turn.unsettled

theorem Calls.finishes (calls : Calls s task session typed piped call) (tie : Tie) {t : Shell}
    (run : perform (called s task session typed call) fullTurn
      (call.command.handler call.arguments ⟨none, piped⟩) (s.opened task session typed).2 =
        (.ended .finished, t)) :
    s.resume tie task = t.conclude task session (.foreground (s.opened task session typed).1) .ok ∧
      (s.resume tie task).console = t.console ∧ (s.resume tie task).jobs = t.jobs := by
  have turned : s.resume tie task =
      t.conclude task session (.foreground (s.opened task session typed).1) .ok := calls.ends tie run
  rw [turned]
  exact ⟨rfl, rfl, rfl⟩

theorem Calls.waits (calls : Calls s task session typed piped call) (tie : Tie) {wait : Wait} {t : Shell}
    (run : perform (called s task session typed call) fullTurn
      (call.command.handler call.arguments ⟨none, piped⟩) (s.opened task session typed).2 = (.waiting wait, t)) :
    s.resume tie task = t.suspend task (.waiting (called s task session typed call) wait) := by
  rw [calls.turn tie, run]
  rfl

theorem Calls.handler (reachable : Reachable s) (calls : Calls s task session typed piped call)
    {d : Declaration} (listed : d ∈ Builtin.all) (named : call.command.name = d.name) :
    call.command.handler = d.handler := by
  have provided := calls.begins.kept.commands.symm ▸ (soundReachable reachable).provided
  obtain ⟨e, mem, same, handler⟩ := Actions.calledDeclared provided calls.read
  rw [handler, Crashes.declaredOnce mem listed (same.symm.trans named)]

theorem Calls.inert (reachable : Reachable s) (calls : Calls s task session typed piped call) :
    Arguments.ArgumentsInert call.arguments := by
  have provided := calls.begins.kept.commands.symm ▸ (soundReachable reachable).provided
  obtain ⟨name, words, found, parsed⟩ := calledKnown calls.read
  obtain ⟨d, mem, built⟩ := Dict.everyFound provided.only found
  exact Arguments.parseInert built parsed

theorem callSeen {α : Type} {t : Shell} {line : Text} (look : Call → α) {seen : α}
    (read : (t.readCall session line).map (Option.map look) = .ok (some seen)) :
    ∃ call, t.readCall session line = .ok (some call) ∧ look call = seen := by
  cases found : t.readCall session line with
  | error error =>
    rw [found] at read
    cases read
  | ok call =>
    rw [found] at read
    obtain ⟨call, rfl, same⟩ := Option.map_eq_some_iff.mp (Except.ok.inj read)
    exact ⟨call, rfl, same⟩

theorem executedStands (reachable : Reachable s) (session : SessionId) (line : Text)
    (piped : Option (List Text)) :
    (s.execute session line piped).2.tasks.lookup ⟨s.taskCount⟩ = some (.line session line piped) :=
  QuotedEcho.lookupAdded (turnNew (soundReachable reachable)).taken

def fresh : Shell := (started Config.standard).openSession.2

theorem freshReachable : Reachable fresh := (reachableStarted _).step (.openSession _)

theorem freshCount : fresh.taskCount = 0 := by decide +kernel

theorem performFinish (c : Invocation) (left : Nat) (t : Shell) :
    perform c left .finish t = (.ended .finished, t) := rfl

theorem performSay (c : Invocation) (left : Nat) (text : Text) (t : Shell) :
    perform c left (.say text .finish) t = (.ended .finished, (t.print c .output text).2) := rfl

/- Up to the command's first action only the scopes and the history have changed, and whose turn is next. -/
theorem openedQuietly (reachable : Reachable s) (task : TaskId) (session : SessionId) (typed : Text) :
    ∃ ready, (s.opened task session typed).2 = { (s.withdraw task).remember session (Text.trim typed) with
      scopes := (s.scopes.begin session).2.2, ready } := by
  obtain ⟨ready, same⟩ := Refusal.openedShell s task session typed
  rw [Refusal.heardNothing (Refusal.unattendedReachable reachable session)] at same
  exact ⟨ready, same⟩

theorem openedConsole (reachable : Reachable s) (task : TaskId) (session : SessionId) (typed : Text) :
    (s.opened task session typed).2.console = s.console := by
  obtain ⟨ready, same⟩ := openedQuietly reachable task session typed
  rw [same]
  rfl

theorem openedJobs (reachable : Reachable s) (task : TaskId) (session : SessionId) (typed : Text) :
    (s.opened task session typed).2.jobs = s.jobs := by
  obtain ⟨ready, same⟩ := openedQuietly reachable task session typed
  rw [same]
  rfl

theorem openedUnasked (reachable : Reachable s) (task : TaskId) (session : SessionId) (typed : Text) :
    (s.opened task session typed).2.isCancelled (.foreground (s.opened task session typed).1) = false := by
  obtain ⟨ready, same⟩ := openedQuietly reachable task session typed
  have silent := (soundReachable reachable).scopes
  have begun : (s.opened task session typed).1 = (s.scopes.begin session).1 := rfl
  rw [same, begun]
  show (s.scopes.begin session).2.2.signals.isFired (s.scopes.begin session).1.signal = false
  rw [Captured.silentBegin silent]
  exact ScopeTokens.begunUnfired (ScopeTokens.apartReachable reachable) session

end ConsoleShell.CalledLines
