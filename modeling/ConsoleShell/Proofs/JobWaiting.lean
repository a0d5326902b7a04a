import ConsoleShell.Proofs.JobHistory
import ConsoleShell.Shell.Schedule

/-! Those who wait for jobs. All are told of every job that is settled, and look again; whoever has
looked and waits on has missed nothing, also where jobs are cleared away without notice. -/
namespace ConsoleShell.JobWaiting
open JobHistory

variable {κ : Type}

inductive Waiter where
  | fresh (job : JobId)
  | suspended (watch : Watch)
  | ended (job : JobId) (result : Except JobError JobSnapshot)

namespace Waiter

def job : Waiter → JobId
  | fresh job => job
  | suspended watch => watch.job
  | ended job _ => job

def hasEnded : Waiter → Bool
  | ended _ _ => true
  | _ => false

def look (j : Jobs κ) (job : JobId) : Waiter :=
  match j.watch job with
  | (.settled found, _) => ended job (.ok found)
  | (.missing, _) => ended job (.error (.notFound job))
  | (.running, watch) => suspended watch

def isWoken (j : Jobs κ) : Waiter → Bool
  | fresh _ => true
  | suspended watch => j.isWoken watch
  | ended _ _ => false

def poll (j : Jobs κ) (w : Waiter) : Waiter := if w.isWoken j then look j w.job else w

end Waiter

structure World (κ : Type) where
  history : History κ := {}
  waiters : List Waiter := []

inductive Move (κ : Type) where
  | act (a : Act κ)
  | await (job : JobId)
  | poll (waiter : Nat)

namespace World

def jobs (w : World κ) : Jobs κ := w.history.jobs

def move (w : World κ) : Move κ → World κ
  | .act a => { w with history := w.history.act a }
  | .await job => { w with waiters := w.waiters ++ [.fresh job] }
  | .poll n => { w with waiters := w.waiters.modify n (Waiter.poll w.jobs) }

def after (w : World κ) (moves : List (Move κ)) : World κ := moves.foldl move w

end World

def Runs (j : Jobs κ) (id : JobId) : Prop := ∃ job, j.table.get? id = some job ∧ job.status = .running

theorem lookCases (j : Jobs κ) (id : JobId) :
    (∃ found, found.status.isFinal = true ∧ j.get? id = some found ∧
      Waiter.look j id = .ended id (.ok found)) ∨
    (j.get? id = none ∧ Waiter.look j id = .ended id (.error (.notFound id))) ∨
    (Runs j id ∧ Waiter.look j id = .suspended ⟨id, j.notices⟩) := by
  unfold Waiter.look Jobs.watch Jobs.look Runs Jobs.get?
  cases found : j.table.get? id with
  | none => simp
  | some job =>
    cases status : job.status <;> simp [JobSnapshot.ofJob, JobStatus.isFinal, status]

theorem lookRuns {j : Jobs κ} {id : JobId} (runs : Runs j id) :
    Waiter.look j id = .suspended ⟨id, j.notices⟩ := by
  obtain ⟨job, found, running⟩ := runs
  simp [Waiter.look, Jobs.watch, Jobs.look, Jobs.get?, found, JobSnapshot.ofJob, running,
    JobStatus.isFinal]

/- Whoever waits on has looked at a job that was there, and while no notice is given that job runs. -/
structure Watched (h : History κ) (watch : Watch) : Prop where
  known : watch.job ∈ h.created.map Prod.fst
  seen : watch.seen ≤ h.jobs.notices
  runs : watch.seen = h.jobs.notices → Runs h.jobs watch.job

theorem runsSet {j : Jobs κ} {id other : JobId} {job new : Job} (runs : Runs j id)
    (found : j.table.get? other = some job) (same : new.status = job.status) :
    ∃ job, (j.table.insert other new).get? id = some job ∧ job.status = .running := by
  obtain ⟨old, listed, running⟩ := runs
  rw [Dict.getInsert]
  split
  · rename_i equal
    cases (equal ▸ listed).symm.trans found
    exact ⟨new, rfl, same.trans running⟩
  · exact ⟨old, listed, running⟩

theorem watchedAdd {h : History κ} (kept : Kept h) {watch : Watch} (watched : Watched h watch)
    (d : Deed κ) : Watched (h.add d) watch := by
  suffices going : watch.seen ≤ (d.run h.jobs).notices ∧
      (watch.seen = (d.run h.jobs).notices → Runs (d.run h.jobs) watch.job) from
    ⟨createdAdd d watched.known, going.1, going.2⟩
  have changed := h.jobs.deedChanges d
  generalize d.run h.jobs = next at changed
  have seen := watched.seen
  cases changed with
  | none | queue => exact ⟨watched.seen, watched.runs⟩
  | create session command now =>
    refine ⟨watched.seen, fun same => ?_⟩
    obtain ⟨job, found, running⟩ := watched.runs same
    unfold Runs
    change ∃ job, (h.jobs.table.insert _ _).get? _ = _ ∧ _
    rw [Dict.getInsert]
    split
    · exact ⟨_, rfl, rfl⟩
    · exact ⟨job, found, running⟩
  -- The number of notices has grown, so the watch is out of date.
  | settle | kill =>
    dsimp only
    exact ⟨by omega, fun same => by omega⟩
  | clearFinished =>
    refine ⟨watched.seen, fun same => ?_⟩
    obtain ⟨job, found, running⟩ := watched.runs same
    exact ⟨job, (clearedFound kept).mpr ⟨found, by simp [JobStatus.isFinal, running]⟩, running⟩
  | output found output => exact ⟨watched.seen, fun same => runsSet (watched.runs same) found rfl⟩

theorem watchedAct {h : History κ} (kept : Kept h) {watch : Watch} (watched : Watched h watch)
    (a : Act κ) : Watched (h.act a) watch := by
  unfold History.act
  generalize a.deeds h.jobs = deeds
  induction deeds generalizing h with
  | nil => exact watched
  | cons d later ih => exact ih (keptAdd kept d) (watchedAdd kept watched d)

theorem watchedLook {h : History κ} (kept : Kept h) {id : JobId} {watch : Watch}
    (looked : Waiter.look h.jobs id = .suspended watch) : watch.job = id ∧ Watched h watch := by
  rcases lookCases h.jobs id with ⟨found, -, -, same⟩ | ⟨-, same⟩ | ⟨runs, same⟩
  · cases same.symm.trans looked
  · cases same.symm.trans looked
  · cases same.symm.trans looked
    have ⟨job, found, _⟩ := runs
    exact ⟨rfl, List.mem_map.mpr ⟨_, kept.own id job found, rfl⟩, Nat.le_refl _, fun _ => runs⟩

structure Awake (w : World κ) : Prop where
  kept : Kept w.history
  watched : ∀ watch, .suspended watch ∈ w.waiters → Watched w.history watch

theorem awakePoll {w : World κ} (awake : Awake w) (n : Nat) : Awake (w.move (.poll n)) where
  kept := awake.kept
  watched watch listed := by
    obtain ⟨place, found⟩ := List.mem_iff_getElem?.mp listed
    change (w.waiters.modify n _)[place]? = _ at found
    rw [List.getElem?_modify] at found
    obtain ⟨old, stood, same⟩ := Option.map_eq_some_iff.mp found
    split at same
    · unfold Waiter.poll at same
      split at same
      · exact (watchedLook awake.kept same).2
      · exact awake.watched watch (same ▸ List.mem_of_getElem? stood)
    · exact awake.watched watch (same ▸ List.mem_of_getElem? stood)

theorem awakeMove {w : World κ} (awake : Awake w) (m : Move κ) : Awake (w.move m) := by
  cases m with
  | act a =>
    exact ⟨keptAct awake.kept a, fun watch listed =>
      watchedAct awake.kept (awake.watched watch listed) a⟩
  | await job =>
    refine ⟨awake.kept, fun watch listed => ?_⟩
    rcases List.mem_append.mp listed with before | new
    · exact awake.watched watch before
    · cases List.mem_singleton.mp new
  | poll n => exact awakePoll awake n

theorem awakeAfter {w : World κ} (awake : Awake w) (moves : List (Move κ)) :
    Awake (w.after moves) := by
  induction moves generalizing w with
  | nil => exact awake
  | cons m later ih => exact ih (awakeMove awake m)

theorem awakeStart : Awake ({} : World κ) := ⟨keptStart, fun _ listed => nomatch listed⟩

theorem quietRuns {w : World κ} (awake : Awake w) {watch : Watch}
    (listed : .suspended watch ∈ w.waiters) (quiet : w.jobs.isWoken watch = false) :
    Runs w.jobs watch.job := by
  have watched := awake.watched watch listed
  have late : ¬ watch.seen < w.history.jobs.notices := of_decide_eq_false quiet
  exact watched.runs (Nat.le_antisymm watched.seen (Nat.le_of_not_lt late))

theorem pollQuiet (j : Jobs κ) (w : Waiter) : (w.poll j).isWoken j = false := by
  unfold Waiter.poll
  split
  · rcases lookCases j w.job with ⟨found, -, -, same⟩ | ⟨-, same⟩ | ⟨-, same⟩ <;>
      simp [same, Waiter.isWoken, Jobs.isWoken]
  · rename_i quiet
    simpa using quiet

theorem pollAgain (j : Jobs κ) (w : Waiter) : (w.poll j).poll j = w.poll j := by
  generalize again : w.poll j = polled
  have quiet := pollQuiet j w
  rw [again] at quiet
  simp [Waiter.poll, quiet]

theorem pollsJobs (w : World κ) (polls : List Nat) :
    (w.after (polls.map .poll)).jobs = w.jobs := by
  induction polls generalizing w with
  | nil => rfl
  | cons n later ih => exact ih (w.move (.poll n))

theorem pollsAt (w : World κ) (polls : List Nat) (n : Nat) :
    (w.after (polls.map .poll)).waiters[n]? =
      w.waiters[n]?.map fun waiter => if n ∈ polls then waiter.poll w.jobs else waiter := by
  induction polls generalizing w with
  | nil => simp [World.after]
  | cons first later ih =>
    change ((w.move (.poll first)).after (later.map .poll)).waiters[n]? = _
    rw [ih]
    change ((w.waiters.modify first (Waiter.poll w.jobs))[n]?).map
      (fun waiter => if n ∈ later then waiter.poll w.jobs else waiter) = _
    rw [List.getElem?_modify]
    cases w.waiters[n]? with
    | none => simp
    | some waiter =>
      by_cases same : first = n
      · by_cases again : n ∈ later <;> simp [same, again, pollAgain]
      · simp [same, Ne.symm same]

theorem laterRuns {w : World κ} (awake : Awake w) {id : JobId}
    (known : id ∈ w.history.created.map Prod.fst) (later : List (Move κ))
    (runs : Runs (w.after later).jobs id) : Runs w.jobs id := by
  induction later generalizing w with
  | nil => exact runs
  | cons m later ih =>
    cases m with
    | act a =>
      obtain ⟨listed, follows⟩ := followsAct awake.kept known a
      obtain ⟨after, found, running⟩ := ih (awakeMove awake (.act a)) listed runs
      obtain ⟨before, earlier, follows⟩ := follows after found
      refine ⟨before, earlier, ?_⟩
      cases status : before.status with
      | running => rfl
      | completed | failed | killed =>
        have same := follows.status (by rw [status]; rfl)
        rw [running, status] at same
        cases same
    | await job => exact ih (w := w.move (.await job)) (awakeMove awake _) known runs
    | poll n => exact ih (w := w.move (.poll n)) (awakeMove awake _) known runs

structure Waking (w : World κ) : Prop where
  ends : ∀ (m : Move κ) (n : Nat) (before : Waiter) id result, w.waiters[n]? = some before → before.hasEnded = false →
    (w.move m).waiters[n]? = some (.ended id result) → before.job = id ∧
      match result with
      | .ok found => found.status.isFinal = true ∧ w.jobs.get? id = some found
      | .error e => e = .notFound id ∧ w.jobs.get? id = none
  told : ∀ (n : Nat) (watch : Watch), w.waiters[n]? = some (.suspended watch) → w.jobs.isWoken watch = false →
    Runs w.jobs watch.job
  drained : ∀ polls : List Nat,
    (∀ (n : Nat) (waiter : Waiter), w.waiters[n]? = some waiter → waiter.isWoken w.jobs = true →
      n ∈ polls) →
    ∀ (n : Nat) (watch : Watch), (w.after (polls.map .poll)).waiters[n]? = some (.suspended watch) →
      Runs w.jobs watch.job
  stays : ∀ (later : List (Move κ)) (n : Nat) (watch : Watch), w.waiters[n]? = some (.suspended watch) →
    Runs (w.after later).jobs watch.job →
    ∃ seen, (w.after later).waiters[n]? = some (.suspended ⟨watch.job, seen⟩)

theorem endsPolled {w : World κ} {m : Move κ} {n : Nat} {before : Waiter} {id : JobId}
    {result : Except JobError JobSnapshot} (found : w.waiters[n]? = some before)
    (going : before.hasEnded = false)
    (ended : (w.move m).waiters[n]? = some (.ended id result)) :
    Waiter.look w.jobs before.job = .ended id result := by
  have apart : before ≠ .ended id result := by
    rintro rfl
    cases going
  cases m with
  | act a => exact absurd (Option.some.inj (found.symm.trans ended)) apart
  | await job =>
    obtain ⟨inside, -⟩ := List.getElem?_eq_some_iff.mp found
    change (w.waiters ++ [_])[n]? = _ at ended
    rw [List.getElem?_append_left inside] at ended
    exact absurd (Option.some.inj (found.symm.trans ended)) apart
  | poll k =>
    change (w.waiters.modify k _)[n]? = _ at ended
    rw [List.getElem?_modify, found] at ended
    replace ended := Option.some.inj ended
    split at ended
    · change (if before.isWoken w.jobs then _ else before) = _ at ended
      split at ended
      · exact ended
      · exact absurd ended apart
    · exact absurd ended apart

theorem staysMove {w : World κ} {n : Nat} {id : JobId} {seen : Nat}
    (found : w.waiters[n]? = some (.suspended ⟨id, seen⟩)) (runs : Runs w.jobs id) (m : Move κ) :
    ∃ seen, (w.move m).waiters[n]? = some (.suspended ⟨id, seen⟩) := by
  cases m with
  | act a => exact ⟨seen, found⟩
  | await job =>
    obtain ⟨inside, -⟩ := List.getElem?_eq_some_iff.mp found
    exact ⟨seen, (List.getElem?_append_left inside).trans found⟩
  | poll k =>
    change ∃ seen, (w.waiters.modify k _)[n]? = _
    rw [List.getElem?_modify, found]
    split
    · by_cases told : w.jobs.isWoken ⟨id, seen⟩ = true
      · exact ⟨w.jobs.notices, by simp [Waiter.poll, Waiter.isWoken, told, Waiter.job, lookRuns runs]⟩
      · exact ⟨seen, by simp [Waiter.poll, Waiter.isWoken, told]⟩
    · exact ⟨seen, rfl⟩

theorem staysAfter {w : World κ} (awake : Awake w) (later : List (Move κ)) {n : Nat} {id : JobId}
    {seen : Nat} (found : w.waiters[n]? = some (.suspended ⟨id, seen⟩))
    (runs : Runs (w.after later).jobs id) :
    ∃ seen, (w.after later).waiters[n]? = some (.suspended ⟨id, seen⟩) := by
  induction later generalizing w seen with
  | nil => exact ⟨seen, found⟩
  | cons m later ih =>
    have watched := awake.watched _ (List.mem_of_getElem? found)
    have now := laterRuns awake watched.known (m :: later) runs
    obtain ⟨seen, next⟩ := staysMove found now m
    exact ih (awakeMove awake m) next runs

theorem wakingAwake {w : World κ} (awake : Awake w) : Waking w where
  ends m n before id result found going ended := by
    have looked := endsPolled found going ended
    rcases lookCases w.jobs before.job with ⟨snapshot, final, seen, same⟩ | ⟨gone, same⟩ | ⟨-, same⟩
    · cases same.symm.trans looked
      exact ⟨rfl, final, seen⟩
    · cases same.symm.trans looked
      exact ⟨rfl, rfl, gone⟩
    · cases same.symm.trans looked
  told n watch found quiet := quietRuns awake (List.mem_of_getElem? found) quiet
  drained polls each n watch found := by
    have listed := List.mem_of_getElem? found
    have runs := quietRuns (awakeAfter awake (polls.map .poll)) listed
    rw [pollsJobs] at runs
    refine runs ?_
    rw [pollsAt] at found
    obtain ⟨old, stood, same⟩ := Option.map_eq_some_iff.mp found
    change Waiter.isWoken w.jobs (.suspended watch) = false
    split at same
    · rw [← same]
      exact pollQuiet w.jobs old
    · rename_i missed
      cases woken : Waiter.isWoken w.jobs old with
      | true => exact absurd (each n old stood woken) missed
      | false => exact same ▸ woken
  stays later n watch found runs := staysAfter awake later found runs

theorem noWakeUpLost (moves : List (Move κ)) : Waking (World.after {} moves) :=
  wakingAwake (awakeAfter awakeStart moves)

theorem watcherLooks (s : Shell) (task : TaskId) (id : JobId) :
    s.look task id =
      match Waiter.look s.jobs id with
      | .suspended watch => s.suspend task (.watcher watch)
      | .ended _ (.ok found) => s.recordSighting task (.settled found)
      | _ => s.recordSighting task .missing := by
  unfold Shell.look Waiter.look
  cases s.jobs.watch id with
  | mk sighting watch => cases sighting <;> rfl

theorem watcherPolls {s : Shell} {task : TaskId} {watch : Watch} (tie : Shell.Tie)
    (listed : s.tasks.lookup task = some (.watcher watch)) (woken : s.jobs.isWoken watch = true) :
    s.resume tie task = (s.withdraw task).look task watch.job := by
  simp [Shell.resume, listed, Shell.canMove, woken]

theorem commandLooks (s : Shell) (c : Invocation) (left : Nat) (id : JobId)
    (next : JobSnapshot → Program) :
    Shell.perform c left (.awaitJob id next) s =
      match Waiter.look s.jobs id with
      | .suspended watch =>
        if s.isCancelled c.origin then (.ended (.failed .cancelled), s)
        else (.waiting (.job watch next), s)
      | .ended _ (.ok found) => Shell.perform c left (next found) s
      | _ => (.ended (.failed (.job (.notFound id))), s) := by
  conv => lhs; unfold Shell.perform
  unfold Waiter.look
  generalize Shell.perform c left = run
  cases s.jobs.watch id with
  | mk sighting watch => cases sighting <;> rfl

theorem commandPolls {s : Shell} {c : Invocation} (asked : s.isCancelled c.origin = false)
    (tie : Shell.Tie) (watch : Watch) (next : JobSnapshot → Program) :
    Shell.goOn tie c (.job watch next) s =
      if s.jobs.isWoken watch then Shell.perform c Shell.fullTurn (.awaitJob watch.job next) s
      else (.waiting (.job watch next), s) := by
  have happened : s.hasHappened (.job watch next) = s.jobs.isWoken watch := rfl
  unfold Shell.goOn
  rw [happened, asked]
  cases s.jobs.isWoken watch <;> rfl

end ConsoleShell.JobWaiting
