import ConsoleShell.Proofs.Continuations
import ConsoleShell.Proofs.JobWaiting
import ConsoleShell.Proofs.SessionKills

/-! Jobs that have come to an end. Whatever happens to the shell later on, they stay what they came to and
their signals stay fired; and whoever works on a job goes by the signal of that very job. -/
namespace ConsoleShell.JobEnds
open Actions JobHistory
open Confinement (remains)
open Offstage (Later)
open Shell (Reachable Runs Step)
open ShellJobs (Deeds)

variable {j k : Jobs Echo} {s t : Shell} {job : JobId}

theorem grownDeed (j : Jobs Echo) (d : Deed Echo) : Signals.Grown j.signals (d.run j).signals := by
  have changed := j.deedChanges d
  generalize d.run j = next at changed
  cases changed with
  | none | settle | clearFinished | output => exact .refl _
  | create => exact Signals.grownCreate _
  | kill => exact Signals.grownFire _ _
  | queue => exact Signals.grownQueue _ _ _

theorem grownDeeds (deeds : Deeds j k) : Signals.Grown j.signals k.signals := by
  obtain ⟨deeds, rfl⟩ := deeds
  induction deeds generalizing j with
  | nil => exact .refl _
  | cons d rest ih => exact (grownDeed j d).trans ih

theorem actedDeeds (history : History Echo) (deeds : List (Deed Echo)) :
    (history.after (deeds.map .deed)).jobs = deeds.foldl Deed.run history.jobs := by
  induction deeds generalizing history with
  | nil => rfl
  | cons d rest ih => exact ih (history.add d)

theorem endStays (h : Reachable s) (deeds : Deeds s.jobs k) {before after : Job}
    (found : s.jobs.table.get? job = some before) (final : before.status.isFinal = true)
    (there : k.table.get? job = some after) :
    after.status = before.status ∧ after.error = before.error := by
  obtain ⟨history, kept, same⟩ := ShellJobs.historyReachable h
  obtain ⟨deeds, rfl⟩ := deeds
  rw [← same] at found there
  rw [← actedDeeds] at there
  obtain ⟨status, -, error⟩ :=
    (lifecycleKept kept).stays (deeds.map .deed) job before after found final there
  exact ⟨status, error⟩

theorem deedsLater (h : Reachable s) (later : Later s t) : Reachable t ∧ Deeds s.jobs t.jobs := by
  induction later with
  | now => exact ⟨h, .refl _⟩
  | step before move ih =>
    obtain ⟨reachable, deeds⟩ := ih
    exact ⟨reachable.step move, deeds.trans (ShellJobs.deedsStep (Shell.soundReachable reachable) move)⟩

def carried? : Shell.Task → Option (JobId × SignalId)
  | .job _ id signal _ _ => some (id, signal)
  | .program c _ | .waiting c _ =>
    match c.origin with
    | .job id signal => some (id, signal)
    | .foreground _ => none
  | .line .. | .watcher _ => none

theorem carriedOn {tie : Shell.Tie} {id : TaskId} {c : Invocation} {run : Halt × Shell}
    (runs : Runs tie s id c run) {e : TaskId × Shell.Task} (left : e ∈ remains id c run.1) :
    ∃ task, (id, task) ∈ s.tasks ∧ carried? e.2 = carried? task := by
  have same : carried? e.2 = carried? (.program c .finish) := by
    unfold remains at left
    split at left
    · cases List.mem_singleton.mp left
      rfl
    · cases List.mem_singleton.mp left
      rfl
    · contradiction
  rw [same]
  cases runs with
  | called begins read =>
    cases begins with
    | line stands | job stands => exact ⟨_, Shell.lookedUp stands, rfl⟩
  | program stands | waited stands => exact ⟨_, Shell.lookedUp stands, rfl⟩

theorem carriedReachable (h : Reachable s) :
    ∀ e ∈ s.tasks, ∀ id signal, carried? e.2 = some (id, signal) → id.number = signal.index + 1 := by
  induction h with
  | start made =>
    obtain ⟨registry, rfl⟩ := Shell.registerElsewhere made
    exact fun _ mem => nomatch mem
  | @step s t before move ih =>
    obtain ⟨history, kept, jobs⟩ := ShellJobs.historyReachable before
    have counted : s.jobs.signals.all.length = s.jobs.lastId := jobs ▸ kept.signals
    have fresh {task : Shell.Task} (new : Fresh s.jobs task) (id signal)
        (own : carried? task = some (id, signal)) : id.number = signal.index + 1 := by
      cases task with
      | job =>
        obtain ⟨rfl, rfl⟩ := new
        cases own
        exact congrArg (· + 1) counted.symm
      | line | watcher => cases own
      | program | waiting => exact new.elim
    intro e mem id signal own
    rcases stepJoins move with ⟨tie, turn, rfl⟩ | joined
    · rcases (tasksAfter tie s turn).origins e mem with old | new | ⟨c, run, runs, -, left⟩
      · exact ih e old id signal own
      · exact fresh new id signal own
      · obtain ⟨task, listed, same⟩ := carriedOn runs left
        exact ih _ listed id signal (same ▸ own)
    · rcases joined.origins e mem with old | new
      · exact ih e old id signal own
      · exact fresh new id signal own

theorem ownSignal (h : Reachable s) {e : TaskId × Shell.Task} (listed : e ∈ s.tasks) {signal : SignalId}
    (own : carried? e.2 = some (job, signal)) {record : Job}
    (found : s.jobs.table.get? job = some record) : record.signal = signal := by
  obtain ⟨history, kept, jobs⟩ := ShellJobs.historyReachable h
  have numbered := kept.own job record (jobs ▸ found)
  rw [kept.numbered] at numbered
  have made : job.number = record.signal.index + 1 := (numberedMember.mp numbered).2
  have carried := carriedReachable h e listed job signal own
  refine Signals.sameSignal.mp ?_
  omega

theorem killEnds (h : Reachable s) {record : Job} (found : s.jobs.table.get? job = some record)
    (running : record.status = .running) :
    (s.killJob job).1 = .ok .killed ∧
      (s.killJob job).2.jobs.signals.isFired record.signal = true ∧
      ∃ after, (s.killJob job).2.jobs.table.get? job = some after ∧ after.status = .killed ∧
        after.error = none := by
  obtain ⟨history, kept, jobs⟩ := ShellJobs.historyReachable h
  have known := (SessionKills.signedKept kept).known job record (jobs ▸ found)
  have settled := kept.settled job record (jobs ▸ found)
  obtain ⟨ready, killed⟩ := Shell.killedQuietly (Shell.soundReachable h).toClean job
  rw [jobs] at known
  have outcome : (s.killJob job).1 = (s.jobs.kill job s.wall).1 := rfl
  rw [outcome, killed]
  rcases s.jobs.killCases job s.wall with ⟨old, there, -, done, same⟩ | ⟨final, -, -⟩
  · cases found.symm.trans there
    rw [same, done]
    refine ⟨rfl, Signals.firedAfter known, { record with status := .killed, endedAt := some s.wall },
      ?_, rfl, ?_⟩
    · exact (Dict.getInsert _ _ _ _).trans (if_pos rfl)
    · simpa [running] using settled.error
  · have past := final record found
    rw [running] at past
    cases past

theorem killedLater (h : Reachable s) {record : Job} (found : s.jobs.table.get? job = some record)
    (running : record.status = .running) (later : Later (s.killJob job).2 t) :
    Reachable t ∧ t.jobs.signals.isFired record.signal = true ∧
      ∀ after, t.jobs.table.get? job = some after → after.status = .killed ∧ after.error = none := by
  obtain ⟨-, fired, last, there, killed, error⟩ := killEnds h found running
  have killing := h.step (.killJob s job)
  obtain ⟨reachable, deeds⟩ := deedsLater killing later
  refine ⟨reachable, (grownDeeds deeds).fired _ fired, fun after found => ?_⟩
  have final : last.status.isFinal = true := by rw [killed]; rfl
  obtain ⟨status, same⟩ := endStays killing deeds there final found
  exact ⟨status.trans killed, same.trans error⟩

end ConsoleShell.JobEnds
