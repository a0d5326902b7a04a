import ConsoleShell.Proofs.ShellJobs

/-! The end of a session's jobs. When a session is closed, those of its jobs that run are killed one after
another, and no others; the signals that fire are theirs alone. -/
namespace ConsoleShell.SessionKills
open JobHistory

variable {j : Jobs Echo} {id : JobId} {job : Job} {session : SessionId} {now : Nat}

def afterKill (now : Nat) (job : Job) : Job :=
  if job.status = .running then { job with status := .killed, endedAt := some now } else job

theorem stillRuns {status : JobStatus} : status.isFinal = false ↔ status = .running := by
  cases status <;> simp [JobStatus.isFinal]

theorem afterKillRunning (running : job.status = .running) :
    afterKill now job = { job with status := .killed, endedAt := some now } :=
  if_pos running

theorem afterKillFinal (final : job.status.isFinal = true) : afterKill now job = job :=
  if_neg fun running => by simp [running, JobStatus.isFinal] at final

theorem afterKillSignal (now : Nat) (job : Job) : (afterKill now job).signal = job.signal := by
  unfold afterKill
  split <;> rfl

theorem afterKillEnds (now : Nat) (job : Job) : (afterKill now job).status ≠ .running := by
  unfold afterKill
  split
  · simp
  · assumption

theorem afterKillAgain (now : Nat) (job : Job) : afterKill now (afterKill now job) = afterKill now job :=
  if_neg (afterKillEnds now job)

theorem foundKill (j : Jobs Echo) (killed : JobId) (now : Nat) (id : JobId) :
    (j.kill killed now).2.2.table.get? id =
      if id = killed then (j.table.get? id).map (afterKill now) else j.table.get? id := by
  rcases j.killCases killed now with ⟨job, found, running, -, same⟩ | ⟨final, -, same⟩
  · rw [same]
    change (j.table.insert killed _).get? id = _
    rw [Dict.getInsert]
    split
    · rename_i mine
      rw [mine, found, Option.map_some, afterKillRunning (stillRuns.mp running)]
    · rfl
  · rw [same]
    split
    · rename_i mine
      subst mine
      cases found : j.table.get? id with
      | none => rfl
      | some job => rw [Option.map_some, afterKillFinal (final job found)]
    · rfl

theorem foundEach (j : Jobs Echo) (now : Nat) (jobs : List JobId) (id : JobId) :
    (Shell.killEach j now jobs).table.get? id =
      if id ∈ jobs then (j.table.get? id).map (afterKill now) else j.table.get? id := by
  induction jobs generalizing j with
  | nil => rfl
  | cons first rest ih =>
    have later := ih (j.kill first now).2.2
    rw [foundKill] at later
    change (Shell.killEach (j.kill first now).2.2 now rest).table.get? id = _
    rw [later]
    by_cases mine : id = first
    · have again : afterKill now ∘ afterKill now = afterKill now := funext (afterKillAgain now)
      simp [mine, again]
    · simp [mine]

structure Signed (j : Jobs Echo) : Prop where
  known : ∀ id job, j.table.get? id = some job → job.signal.index < j.signals.all.length
  own : ∀ id other job mate, j.table.get? id = some job → j.table.get? other = some mate →
    job.signal = mate.signal → id = other

theorem signedKept {history : History Echo} (kept : Kept history) : Signed history.jobs := by
  have number (id job) (found : history.jobs.table.get? id = some job) :
      job.signal.index < history.jobs.lastId ∧ id.number = job.signal.index + 1 := by
    have own := kept.own id job found
    rw [kept.numbered] at own
    exact numberedMember.mp own
  refine ⟨fun id job found => ?_, fun id other job mate found there same => ?_⟩
  · rw [kept.signals]
    exact (number id job found).1
  · have equal : id.number = other.number := by
      rw [(number id job found).2, (number other mate there).2, same]
    cases id
    cases other
    exact congrArg JobId.mk equal

theorem signedKill (signed : Signed j) (killed : JobId) (now : Nat) : Signed (j.kill killed now).2.2 := by
  have long : (j.kill killed now).2.2.signals.all.length = j.signals.all.length := by
    rcases j.killCases killed now with ⟨job, -, -, -, same⟩ | ⟨-, -, same⟩
    · rw [same]
      exact Signals.longFire _ _
    · rw [same]
  have before (id job) (found : (j.kill killed now).2.2.table.get? id = some job) :
      ∃ old, j.table.get? id = some old ∧ old.signal = job.signal := by
    rw [foundKill] at found
    split at found
    · obtain ⟨old, there, rfl⟩ := Option.map_eq_some_iff.mp found
      exact ⟨old, there, (afterKillSignal now old).symm⟩
    · exact ⟨job, found, rfl⟩
  refine ⟨fun id job found => ?_, fun id other job mate found there same => ?_⟩
  · obtain ⟨old, listed, signal⟩ := before id job found
    rw [long, ← signal]
    exact signed.known id old listed
  · obtain ⟨old, listed, signal⟩ := before id job found
    obtain ⟨past, stood, again⟩ := before other mate there
    exact signed.own id other old past listed stood (by rw [signal, again, same])

theorem firedKill (signed : Signed j) (found : j.table.get? id = some job) (killed : JobId) (now : Nat) :
    (j.kill killed now).2.2.signals.isFired job.signal =
      (decide (id = killed ∧ job.status = .running) || j.signals.isFired job.signal) := by
  rcases j.killCases killed now with ⟨victim, listed, running, -, same⟩ | ⟨final, -, same⟩
  · have signal : job.signal = victim.signal ↔ id = killed ∧ job.status = .running := by
      constructor
      · intro equal
        have mine := signed.own id killed job victim found listed equal
        subst mine
        cases Option.some.inj (found.symm.trans listed)
        exact ⟨rfl, stillRuns.mp running⟩
      · rintro ⟨rfl, -⟩
        cases Option.some.inj (found.symm.trans listed)
        rfl
    rw [same]
    change (j.signals.fire victim.signal).2.isFired job.signal = _
    rw [Signals.firedFire (signed.known killed victim listed), decide_eq_decide.mpr signal]
  · have spared : ¬ (id = killed ∧ job.status = .running) := by
      rintro ⟨rfl, running⟩
      cases (final job found).symm.trans (stillRuns.mpr running)
    rw [same, decide_eq_false spared, Bool.false_or]

theorem firedEach (signed : Signed j) (found : j.table.get? id = some job) (now : Nat)
    (jobs : List JobId) : (Shell.killEach j now jobs).signals.isFired job.signal =
      (decide (id ∈ jobs ∧ job.status = .running) || j.signals.isFired job.signal) := by
  induction jobs generalizing j job with
  | nil => simp [Shell.killEach]
  | cons first rest ih =>
    have fired := firedKill signed found first now
    have killed := foundKill j first now id
    change (Shell.killEach (j.kill first now).2.2 now rest).signals.isFired job.signal = _
    rw [found, Option.map_some] at killed
    -- A job that the first kill ended no longer runs, so the kills behind it leave its signal alone.
    by_cases mine : id = first
    · rw [if_pos mine] at killed
      have later := ih (signedKill signed first now) killed
      rw [afterKillSignal, decide_eq_false fun both => afterKillEnds now job both.2, fired] at later
      simpa [mine] using later
    · rw [if_neg mine] at killed
      have later := ih (signedKill signed first now) killed
      rw [fired] at later
      simpa [mine] using later

theorem runningFound (sorted : j.table.Sorted) : id ∈ j.runningIn session ↔
    ∃ job, j.table.get? id = some job ∧ job.session = session ∧ job.status = .running := by
  simp [Jobs.runningIn, Dict.foundIff sorted jobStrict]

structure KillsOwn (session : SessionId) (s t : Shell) : Prop where
  jobs : ∀ id, t.jobs.table.get? id = (s.jobs.table.get? id).map fun job =>
    if job.session = session then afterKill s.wall job else job
  fired : ∀ id job, s.jobs.table.get? id = some job → t.jobs.signals.isFired job.signal =
    (decide (job.session = session ∧ job.status = .running) || s.jobs.signals.isFired job.signal)

theorem closeKills {s : Shell} (h : Shell.Reachable s) (session : SessionId) :
    KillsOwn session s (s.closeSession session) := by
  obtain ⟨history, kept, same⟩ := ShellJobs.historyReachable h
  have sorted : s.jobs.table.Sorted := same ▸ kept.sorted
  have signed : Signed s.jobs := same ▸ signedKept kept
  obtain ⟨ready, closed⟩ := Shell.closedQuietly (Shell.soundReachable h).toClean session
  have runs {id job} (found : s.jobs.table.get? id = some job) :
      id ∈ s.jobs.runningIn session ↔ job.session = session ∧ job.status = .running := by
    simp [runningFound sorted, found]
  rw [closed]
  refine ⟨fun id => ?_, fun id job found => ?_⟩
  · change (Shell.killEach s.jobs s.wall (s.jobs.runningIn session)).table.get? id = _
    rw [foundEach]
    cases found : s.jobs.table.get? id with
    | none => simp
    | some job =>
      by_cases own : job.session = session
      · by_cases running : job.status = .running <;> simp [runs found, own, running, afterKill]
      · simp [runs found, own]
  · change (Shell.killEach s.jobs s.wall (s.jobs.runningIn session)).signals.isFired job.signal = _
    have own : id ∈ s.jobs.runningIn session ∧ job.status = .running ↔
        job.session = session ∧ job.status = .running := by
      rw [runs found, and_assoc, and_self]
    rw [firedEach signed found, decide_eq_decide.mpr own]

end ConsoleShell.SessionKills
