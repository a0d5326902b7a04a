import ConsoleShell.Proofs.Foreground
import ConsoleShell.Proofs.ShellJobs

/-! Work in the background. A line that runs as a job has a task of its own, and whatever else happens to the
shell in between, no turn of that task comes near a console or asks for a line: the job writes in its
own output alone, and what it came to is told nowhere but on its record. -/
namespace ConsoleShell.Offstage
open Confinement OwnRequests
open Shell (Sound Step Reachable)

inductive Later (s : Shell) : Shell → Prop where
  | now : Later s s
  | step {t u} (before : Later s t) (move : Step t u) : Later s u

/- What a turn of a job's task leaves as it is. A console is taken as a whole, with the events that tell of
it. -/
structure Unseen (job : JobId) (s t : Shell) : Prop where
  console : t.console = s.console
  requests : t.requests = s.requests
  outcomes : t.outcomes = s.outcomes
  works : Works (some job) s.jobs t.jobs
  others : ∀ other after, other ≠ job → t.jobs.table.get? other = some after →
    ∃ before, s.jobs.table.get? other = some before ∧
      after.output = before.output ∧ after.error = before.error

structure Tasked (s : Shell) (id : TaskId) (job : JobId) : Prop where
  known : id.number < s.taskCount
  own : ∀ task, (id, task) ∈ s.tasks → job? task = some job

variable {s t : Shell} {c : Invocation} {id : TaskId} {task : Shell.Task} {job : JobId}
  {owners : List SessionId}

theorem Tasked.descends (tasked : Tasked s id job) (descends : Descends s t) : Tasked t id job where
  known := Nat.lt_of_lt_of_le tasked.known descends.taskCount
  own task mem := by
    rcases descends.tasks _ mem with new | ⟨old, listed, -, same⟩
    · exact absurd tasked.known (Nat.not_lt_of_le new)
    · exact same.trans (tasked.own old listed)

theorem taskedLater (h : Reachable s) (tasked : Tasked s id job) (later : Later s t) :
    Reachable t ∧ Tasked t id job := by
  induction later with
  | now => exact ⟨h, tasked⟩
  | step before move ih =>
    obtain ⟨reachable, still⟩ := ih
    obtain ⟨owners, filed⟩ := filedReachable reachable
    obtain ⟨-, -, descends⟩ := filedStep (Shell.soundReachable reachable) filed move
    exact ⟨reachable.step move, still.descends descends⟩

theorem taskedListed (h : Reachable s) (listed : (id, task) ∈ s.tasks) (own : job? task = some job) :
    Tasked s id job := by
  obtain ⟨begun, recorded⟩ := Foreground.recordedReachable h
  have unique := (Foreground.stagedRecorded recorded).unique
  refine ⟨unique.numbered _ listed, fun other mem => ?_⟩
  rw [Foreground.oneTask unique mem listed]
  exact own

theorem performedQuiet (place : c.origin.job? = some job) {run : Halt × Shell}
    (performed : Performed c s run) : run.2.requests = s.requests := by
  cases performed with
  | idle confined none => exact confined.requests
  | asks confined asked waits =>
    obtain ⟨foreground, -⟩ := granted asked
    cases place.symm.trans foreground

theorem goesOnQuiet (place : c.origin.job? = some job) {wait : Wait}
    (files : Files owners (.waiting c wait)) {run : Halt × Shell} (goesOn : GoesOn c wait s run) :
    run.2.requests = s.requests := by
  cases goesOn with
  | stays => rfl
  | free none performed => exact performedQuiet place performed
  | looks waited look performed =>
    obtain ⟨-, foreground⟩ := files _ waited
    cases place.symm.trans foreground

theorem commandQuiet (place : c.origin.job? = some job) (files : Files owners task)
    (turn : CommandTurn id task c s t) : t.requests = s.requests := by
  cases turn with
  | refused outcome => exact (confinedConclude s id outcome).requests
  | halted performed => exact (left id _).requests.trans (performedQuiet place performed)
  | wentOn same goesOn =>
    exact (left id _).requests.trans (goesOnQuiet place (same ▸ files) goesOn)

theorem offstageWorks (h : Reachable s) (console : t.console = s.console)
    (requests : t.requests = s.requests) (outcomes : t.outcomes = s.outcomes)
    (works : Works (some job) s.jobs t.jobs) : Unseen job s t where
  console := console
  requests := requests
  outcomes := outcomes
  works := works
  others other after apart there := by
    obtain ⟨history, kept, same⟩ := ShellJobs.historyReachable h
    have before := works.kept (same ▸ kept.sorted)
    obtain ⟨old, found, keeps⟩ := before.jobs other after there
    have foreign : ¬ some job = some other := fun equal => apart (Option.some.inj equal).symm
    exact ⟨old, found, keeps.output foreign, keeps.error foreign⟩

theorem offstageTurn (h : Reachable s) (tasked : Tasked s id job) (tie : Shell.Tie) :
    Unseen job s (s.resume tie id) := by
  cases found : s.tasks.lookup id with
  | none =>
    unfold Shell.resume
    rw [found]
    exact offstageWorks h rfl rfl rfl (.refl _)
  | some task =>
    have listed := Shell.lookedUp found
    have own := tasked.own task listed
    have turn := resumeTurn (Shell.soundReachable h) found tie
    generalize s.resume tie id = t at turn
    cases turn with
    | waits => exact offstageWorks h rfl rfl rfl (.refl _)
    | line session foreground turn => cases own.symm.trans foreground
    | command session place turn =>
      obtain ⟨owners, filed⟩ := filedReachable h
      have background := place.symm.trans own
      have within := turn.within
      obtain ⟨console, outcomes⟩ := within.background (by simp [background])
      have quiet := commandQuiet background (filed.files (id, task) listed) turn
      exact offstageWorks h console quiet outcomes
        (background ▸ within.jobs)
    | watcher same =>
      rw [same] at own
      have absent : none = some job := own
      cases absent

theorem createdTask (s : Shell) (session : SessionId) (line : Text) :
    (⟨s.taskCount⟩, .job session (s.createJob session line).1 s.jobs.signals.create.1 line none) ∈
      (s.createJob session line).2.tasks := by
  obtain ⟨jobs, ready, same⟩ := jobStarted s session line none
  unfold Shell.createJob
  rw [same]
  exact List.mem_append_right _ List.mem_cons_self

theorem assignsNothing {session : SessionId} {line : Text} :
    s.assign? session line = none ↔
      ∀ data, s.sessions.get? session = some data → data.store.assign? line = none := by
  unfold Shell.assign?
  cases s.sessions.get? session with
  | none => simp
  | some data => cases made : data.store.assign? line <;> simp [made]

theorem assignRemembered {session : SessionId} {line : Text} (plain : s.assign? session line = none) :
    (s.remember session line).assign? session line = none := by
  refine assignsNothing.mpr fun data found => ?_
  have stored : (s.remember session line).sessions.get? session =
      (s.sessions.get? session).map _ :=
    (Dict.getModify _ _ _ _).trans (if_pos rfl)
  rw [stored] at found
  obtain ⟨old, there, rfl⟩ := Option.map_eq_some_iff.mp found
  exact assignsNothing.mp plain old there

/- The lines that run as jobs, and what their tasks do whenever they have a turn. -/
structure Backstage (s : Shell) : Prop where
  created : ∀ session line, ∃ id signal,
    (id, .job session (s.createJob session line).1 signal line none) ∈
      (s.createJob session line).2.tasks
  typed : ∀ tie id session text piped command,
    s.tasks.lookup id = some (.line session text piped) →
    s.assign? session (Text.trim text) = none →
    Background.command? (Text.trim text) = some command →
    ∃ new job signal, s.taskCount ≤ new.number ∧
      (new, .job session job signal command piped) ∈ (s.resume tie id).tasks
  turns : ∀ id session job signal line piped, (id, .job session job signal line piped) ∈ s.tasks →
    ∀ t, Later s t → ∀ tie, Unseen job t (t.resume tie id)

theorem typedStarts {session : SessionId} {text command : Text} {piped : Option (List Text)}
    (tie : Shell.Tie) (found : s.tasks.lookup id = some (.line session text piped))
    (plain : s.assign? session (Text.trim text) = none)
    (background : Background.command? (Text.trim text) = some command) :
    ∃ new job signal, s.taskCount ≤ new.number ∧
      (new, .job session job signal command piped) ∈ (s.resume tie id).tasks := by
  have moves : s.canMove (.line session text piped) = true := rfl
  have typed : (Text.trim text).isEmpty = false := by
    cases trimmed : Text.trim text with
    | nil =>
      rw [trimmed] at background
      cases background
    | cons first rest => rfl
  have rest : (s.withdraw id).assign? session (Text.trim text) = none :=
    assignsNothing.mpr fun data there => assignsNothing.mp plain data there
  have unassigned := assignRemembered rest
  have count : ((s.withdraw id).remember session (Text.trim text)).taskCount = s.taskCount := rfl
  unfold Shell.resume Shell.startLine
  rw [found]
  simp only [moves, typed, if_true, Bool.false_eq_true, if_false, unassigned, background]
  generalize (s.withdraw id).remember session (Text.trim text) = t at count
  obtain ⟨jobs, ready, same⟩ := jobStarted t session command piped
  refine ⟨⟨t.taskCount⟩, ⟨t.jobs.lastId + 1⟩, t.jobs.signals.create.1, Nat.le_of_eq count.symm, ?_⟩
  change _ ∈ (t.startJob session command piped).2.tasks
  rw [same]
  exact List.mem_append_right _ List.mem_cons_self

theorem backgroundOffstage (h : Reachable s) : Backstage s where
  created session line := ⟨_, _, createdTask s session line⟩
  typed tie id session text piped command found plain background :=
    typedStarts tie found plain background
  turns id session job signal line piped listed t later tie := by
    obtain ⟨reachable, tasked⟩ := taskedLater h (taskedListed h listed rfl) later
    exact offstageTurn reachable tasked tie

def opened : Shell := (Shell.started Config.standard).openSession.2

def printing : Shell := (opened.createJob ⟨0⟩ "echo hi").2

def working : Shell := (printing.createJob ⟨0⟩ "nothing").2

theorem openedReachable : Reachable opened :=
  (Shell.reachableStarted Config.standard).step (.openSession _)

theorem printingReachable : Reachable printing :=
  ((Shell.reachableStarted Config.standard).step (.openSession _)).step (.createJob opened ⟨0⟩ "echo hi")

theorem backgroundOffstageTwo :
    let printed := working.resume .event ⟨0⟩
    let failed := printed.resume .event ⟨1⟩
    Backstage printing ∧ Unseen ⟨1⟩ working printed ∧ Unseen ⟨2⟩ printed failed ∧
      (failed.jobs.get? ⟨1⟩).map JobSnapshot.plainLines = some (["hi"] : List Text) ∧
      (failed.jobs.get? ⟨2⟩).bind JobSnapshot.error = some "CommandNotFound: nothing" ∧
      failed.plainOutput ⟨0⟩ = [] := by
  intro printed failed
  have backstage := backgroundOffstage printingReachable
  have begun : Later printing working := .step .now (.createJob printing ⟨0⟩ "nothing")
  have gone : Later working printed := .step .now (.resume working .event ⟨0⟩)
  have reachable : Reachable working := printingReachable.step (.createJob printing ⟨0⟩ "nothing")
  have listed := createdTask opened ⟨0⟩ "echo hi"
  have next := createdTask printing ⟨0⟩ "nothing"
  rw [← printing] at listed
  rw [← working] at next
  have first := backstage.turns _ _ _ _ _ _ listed working begun .event
  have second := (backgroundOffstage reachable).turns _ _ _ _ _ _ next printed gone .event
  have numbers : opened.taskCount = 0 ∧ printing.taskCount = 1 ∧
      (opened.createJob ⟨0⟩ "echo hi").1 = ⟨1⟩ ∧ (printing.createJob ⟨0⟩ "nothing").1 = ⟨2⟩ := by
    decide +kernel
  obtain ⟨zero, one, job, other⟩ := numbers
  rw [zero, job] at first
  rw [one, other] at second
  exact ⟨backstage, first, second, by decide +kernel⟩

end ConsoleShell.Offstage
