import ConsoleShell.Proofs.FiredScopes
import ConsoleShell.Proofs.LineEnds
import ConsoleShell.Proofs.ScopeTokens

/-! Lines that are refused. A line may turn out to be no call of a command after its scope has begun: it does
not fall into words, its command is not known, or its arguments do not fit. Then nothing has been done
for it but to remember it and to retire the scope before it, and nothing is left of it but a report. -/
namespace ConsoleShell.Refusal
open FiredScopes (retired replaceSignals)
open Shell (Kept Reachable LineEnd)

def Found : LineError → Prop
  | .words _ | .arguments _ | .commandNotFound _ => True
  | .command _ _ => False

def Unattended (scopes : Scopes Echo) (session : SessionId) : Prop :=
  ∀ scope signal, scopes.live.get? session = some scope →
    scopes.signals.get? scope.signal = some signal → signal.waiting = []

def tell (heard : Console × Jobs Echo) (e : Echo) : Console × Jobs Echo :=
  match e.job with
  | none => ((heard.1.print e.session .output e.text).2, heard.2)
  | some job => (heard.1, (heard.2.print job .output e.text).2)

def echoes (notes : List (Note Echo)) : List Echo :=
  notes.filterMap fun
    | .ran e => some e
    | _ => none

def heard (s : Shell) (session : SessionId) : Console × Jobs Echo :=
  (echoes (s.scopes.begin session).2.1).foldl tell (s.console, s.jobs)

theorem toldOne (s : Shell) (e : Echo) :
    s.echo e =
      { s with console := (tell (s.console, s.jobs) e).1, jobs := (tell (s.console, s.jobs) e).2 } := by
  obtain ⟨session, job, text⟩ := e
  cases job <;> rfl

theorem toldEach (s : Shell) (told : List Echo) :
    told.foldl Shell.echo s =
      { s with console := (told.foldl tell (s.console, s.jobs)).1
               jobs := (told.foldl tell (s.console, s.jobs)).2 } := by
  induction told generalizing s with
  | nil => rfl
  | cons e rest ih => rw [List.foldl_cons, ih, toldOne, List.foldl_cons]

theorem openedShell (s : Shell) (id : TaskId) (session : SessionId) (typed : Text) :
    ∃ ready, (s.opened id session typed).2 = { (s.withdraw id).remember session (Text.trim typed) with
      scopes := (s.scopes.begin session).2.2
      console := (heard s session).1
      jobs := (heard s session).2
      ready } := by
  unfold Shell.opened Shell.beginScope Shell.onScopes
  dsimp only
  rw [toldEach]
  exact ⟨_, rfl⟩

def passed (scopes : Scopes Echo) (session : SessionId) : Scopes Echo :=
  ((scopes.begin session).2.2.finish session (scopes.begin session).1.id).2

/- All that a refused line changes, in whatever shell. Besides the report it is the line's place in the
history, and what comes of retiring the scope before. -/
def reported (s : Shell) (id : TaskId) (session : SessionId) (typed : Text) (error : LineError)
    (ready : List TaskId) : Shell :=
  { (s.withdraw id).remember session (Text.trim typed) with
    console := ((heard s session).1.print session .error (Markup.escape error.message)).2
    jobs := (heard s session).2
    scopes := passed s.scopes session
    outcomes := s.outcomes ++ [(id, .failed error)]
    ready }

theorem concludeReported (s : Shell) (id : TaskId) (session : SessionId) (typed : Text)
    (error : LineError) : ∃ ready,
      (s.opened id session typed).2.conclude id session (.foreground (s.opened id session typed).1)
        (.failed error) = reported s id session typed error ready := by
  have scope : (s.opened id session typed).1 = (s.scopes.begin session).1 := rfl
  obtain ⟨ready, same⟩ := openedShell s id session typed
  rw [scope, same]
  exact ⟨ready, rfl⟩

section Scopes

variable {scopes : Scopes Echo} {session : SessionId} (quiet : Unattended scopes session)

theorem fireQuietly {signals : Signals (Callback Echo)} {id : SignalId}
    (unheard : ∀ signal, signals.get? id = some signal → signal.waiting = []) :
    (signals.fire id).1.getD [] = [] := by
  unfold Signals.fire
  split
  · rfl
  · rename_i signal found
    split
    · rfl
    · exact unheard signal found

include quiet

theorem replaceQuietly : (scopes.replace session).2.1 = [] := by
  unfold Scopes.replace
  dsimp only
  split
  · rfl
  · rename_i previous found
    have silent : (scopes.signals.create.2.fire previous.signal).1.getD [] = [] := by
      refine fireQuietly fun signal there => ?_
      rw [Signals.getCreate] at there
      split at there
      · cases there
        rfl
      · exact quiet previous signal found there
    unfold Scopes.fire
    dsimp only
    split
    · rename_i fired
      rw [fired] at silent
      exact List.map_eq_nil_iff.mpr silent
    · rfl

theorem beginQuietly :
    scopes.begin session = ((scopes.replace session).1, [], (scopes.replace session).2.2) := by
  unfold Scopes.begin
  dsimp only
  rw [replaceQuietly quiet, Captured.runNothing]

end Scopes

theorem heardNothing {s : Shell} {session : SessionId} (quiet : Unattended s.scopes session) :
    heard s session = (s.console, s.jobs) := by
  unfold heard
  rw [beginQuietly quiet]
  rfl

structure ReportOnly (s : Shell) (session : SessionId) (error : LineError) (t : Shell) : Prop where
  jobs : t.jobs = s.jobs
  console : t.console = (s.console.print session .error (Markup.escape error.message)).2
  group : ∀ before, s.console.buffer? session = some before →
    ∃ g : Group, g.kind = .error ∧ g.lines = Render.text .error (Markup.escape error.message) ∧
      ∃ after, t.console.buffer? session = some after ∧ after.groups = before.groups ++ [g]
  consoles : ∀ other, other ≠ session → t.console.buffer? other = s.console.buffer? other
  idle : t.scopes.live.get? session = none
  others : ∀ other, other ≠ session → t.scopes.live.get? other = s.scopes.live.get? other
  counted : t.scopes.lastId = s.scopes.lastId + 1
  fired : ∀ scope, s.scopes.live.get? session = some scope →
    scope.signal.index < s.scopes.signals.all.length → t.scopes.signals.isFired scope.signal = true
  signals : ∀ signal : SignalId, signal.index < s.scopes.signals.all.length →
    (∀ scope, s.scopes.live.get? session = some scope → scope.signal ≠ signal) →
    t.scopes.signals.get? signal = s.scopes.signals.get? signal

structure Refused (s : Shell) (id : TaskId) (session : SessionId) (typed : Text) (error : LineError)
    (t : Shell) : Prop where
  only : ∃ ready, t = reported s id session typed error ready
  registry : t.registry = s.registry
  stores : ∀ other, t.store other = s.store other
  sessions : ∀ other, other ≠ session → t.sessions.get? other = s.sessions.get? other
  history : ∀ data, s.sessions.get? session = some data →
    t.history session = (data.history ++ [Text.trim typed]).drop
      (data.history.length + 1 - s.config.historyLimit)
  godMode : t.godMode = s.godMode
  exits : t.exits = s.exits
  requests : t.requests = s.requests
  quiet : Unattended s.scopes session → ReportOnly s session error t

variable {s t : Shell} {id : TaskId} {session : SessionId} {typed : Text} {error : LineError}

theorem printedGroup {c : Console} {before : Buffer} (there : c.buffer? session = some before)
    (kind : OutputKind) (text : Text) :
    (c.print session kind text).2.buffer? session = some (before.print kind text).2 := by
  unfold Console.print Console.pushLines
  rw [there]
  unfold Console.publish Console.setBuffer Console.buffer?
  dsimp only
  rw [Dict.getInsert, if_pos rfl]
  rfl

theorem passedQuietly (quiet : Unattended s.scopes session) (error : LineError) (ready : List TaskId) :
    ReportOnly s session error (reported s id session typed error ready) := by
  have begun := beginQuietly quiet
  have nothing := heardNothing quiet
  obtain ⟨scope, live, count⟩ := Foreground.replaced s.scopes session
  have gone : passed s.scopes session =
      ((s.scopes.replace session).2.2.finish session (s.scopes.replace session).1.id).2 := by
    unfold passed
    rw [begun]
  obtain ⟨signals, last, left⟩ :=
    Foreground.finished (s.scopes.replace session).2.2 session (s.scopes.replace session).1.id
  rw [← gone] at signals last left
  rw [replaceSignals] at signals
  rw [live] at left
  have console : (reported s id session typed error ready).console =
      (s.console.print session .error (Markup.escape error.message)).2 := by
    unfold reported
    rw [nothing]
  refine {
    jobs := by unfold reported; rw [nothing]
    console
    group := fun before there => ⟨_, rfl, rfl, _, console ▸ printedGroup there _ _, rfl⟩
    consoles := fun other apart => console ▸ Confinement.apartPush _ apart _ _
    idle := ?_
    others := fun other apart => ?_
    counted := last.trans count
    fired := fun scope found known => ?_
    signals := fun signal known apart => ?_ }
  · change (passed s.scopes session).live.get? session = none
    refine Option.eq_none_iff_forall_ne_some.mpr fun scope found => ?_
    obtain ⟨there, other⟩ := (left session scope).mp found
    rw [Dict.getInsert, if_pos rfl] at there
    exact other ⟨rfl, Option.some.inj there ▸ rfl⟩
  · change (passed s.scopes session).live.get? other = _
    refine Option.ext fun scope => (left other scope).trans ?_
    rw [Dict.getInsert, if_neg apart]
    exact and_iff_left fun mine => apart mine.1
  · change (passed s.scopes session).signals.isFired scope.signal = true
    rw [signals]
    unfold retired
    rw [found]
    refine Signals.firedAfter ?_
    simp only [Signals.create, List.length_append]
    omega
  · change (passed s.scopes session).signals.get? signal = _
    rw [signals]
    unfold retired
    split
    · exact ScopeTokens.getOld _ known
    · rename_i scope found
      exact (ScopeTokens.getFire _ fun same => apart scope found same.symm).trans
        (ScopeTokens.getOld _ known)

theorem reportedRefused (s : Shell) (id : TaskId) (session : SessionId) (typed : Text)
    (error : LineError) (ready : List TaskId) :
    Refused s id session typed error (reported s id session typed error ready) := by
  have modified (other : SessionId) :
      (reported s id session typed error ready).sessions.get? other =
        ((s.withdraw id).remember session (Text.trim typed)).sessions.get? other := rfl
  unfold Shell.remember Shell.onSession at modified
  simp only [Dict.getModify] at modified
  refine {
    only := ⟨ready, rfl⟩
    registry := rfl
    stores := fun other => ?_
    sessions := fun other apart => ?_
    history := fun data found => ?_
    godMode := rfl
    exits := rfl
    requests := rfl
    quiet := fun quiet => passedQuietly quiet error ready }
  · unfold Shell.store
    rw [modified]
    by_cases own : other = session
    · subst own
      change Option.getD (Option.map _ (if other = other then (s.sessions.get? other).map _ else _)) _ = _
      cases s.sessions.get? other <;> simp
    · rw [if_neg own]
      rfl
  · rw [modified, if_neg apart]
    rfl
  · unfold Shell.history
    rw [modified, if_pos rfl]
    change Option.getD (Option.map _ ((s.sessions.get? session).map _)) _ = _
    rw [found]
    simp [Shell.withdraw]

theorem unattendedReachable (h : Reachable s) (session : SessionId) : Unattended s.scopes session :=
  fun _ signal _ found =>
    (Shell.soundReachable h).scopes signal (List.mem_of_getElem? found)

/- Whatever is typed into whatever shell: where the end of a line on the record is one of these errors, it was
the line's first turn, and the line came to no more than a report. In a shell without commands but
its own nobody is ever to be told of a scope, and an open session has a console for the report. -/
theorem onlyReports {tie : Shell.Tie} {ended : TaskId} (found : Found error)
    (fresh : (ended, .failed error) ∉ s.outcomes)
    (ends : (ended, .failed error) ∈ (s.resume tie id).outcomes) :
    ∃ session typed piped, ended = id ∧ s.tasks.lookup id = some (.line session typed piped) ∧
      Refused s id session typed error (s.resume tie id) ∧
      (Reachable s → Unattended s.scopes session ∧
        (s.isOpen session = true → ∃ before, s.console.buffer? session = some before)) := by
  obtain ⟨rfl, line, -⟩ := Shell.newlyRecorded fresh ends
  generalize s.resume tie ended = t at line
  generalize same : Outcome.failed error = outcome at line
  cases line with
  | done stands => contradiction
  | @refused session typed piped _ stands read turn =>
    cases same
    obtain ⟨ready, same⟩ := concludeReported s ended session typed error
    refine ⟨session, typed, piped, rfl, stands, ?_, fun reachable => ?_⟩
    · rw [turn, same]
      exact reportedRefused s ended session typed error ready
    · refine ⟨unattendedReachable reachable session, fun isOpen => ?_⟩
      have there := (Shell.soundReachable reachable).buffers session isOpen
      exact Option.isSome_iff_exists.mp there
  | @command c run ending name scope runs named place ends turn =>
    -- The error of a command carries its name.
    unfold Ending.outcome at same
    split at same <;> cases same
    exact found.elim

def mistyped : Shell := (Foreground.sleeping.execute ⟨0⟩ "  nothing \"here\" " none).2

theorem mistypedReachable : Reachable mistyped :=
  ((((Shell.reachableStarted Config.standard).step (.openSession _)).step
    (.execute _ ⟨0⟩ "sleep 10" none)).step (.resume _ .event ⟨0⟩)).step
      (.execute Foreground.sleeping ⟨0⟩ "  nothing \"here\" " none)

theorem onlyReportsMistyped :
    let error := LineError.commandNotFound "nothing"
    let after := mistyped.resume .event ⟨1⟩
    Found error ∧ (⟨1⟩, .failed error) ∉ mistyped.outcomes ∧ (⟨1⟩, .failed error) ∈ after.outcomes ∧
      (∃ session typed piped, mistyped.tasks.lookup ⟨1⟩ = some (.line session typed piped) ∧
        Refused mistyped ⟨1⟩ session typed error after ∧ ReportOnly mistyped session error after) ∧
      after.history ⟨0⟩ = (["sleep 10", "nothing \"here\""] : List Text) ∧
      after.plainOutput ⟨0⟩ = (["CommandNotFound: nothing"] : List Text) ∧
      after.isCancelled (.foreground ⟨⟨1⟩, ⟨0⟩⟩) = true := by
  intro error after
  have found : Found error := trivial
  have fresh : (⟨1⟩, .failed error) ∉ mistyped.outcomes := by decide +kernel
  have ends : (⟨1⟩, .failed error) ∈ after.outcomes := by decide +kernel
  obtain ⟨session, typed, piped, -, stands, refused, shell⟩ :=
    onlyReports found fresh ends
  have quiet := refused.quiet (shell mistypedReachable).1
  exact ⟨found, fresh, ends, ⟨session, typed, piped, stands, refused, quiet⟩, by decide +kernel⟩

end ConsoleShell.Refusal
