import ConsoleShell.Proofs.Basic
import ConsoleShell.Proofs.JobDeeds

/-! The life of a job. It runs until it is settled or killed, and then stays what it came to until it is
cleared away, whatever its command still returns. Its signal fires when it is killed and at no other
time, and its number is never handed out again. -/
namespace ConsoleShell.JobHistory
open Jobs (Change)

variable {κ : Type}

inductive Act (κ : Type) where
  | deed (d : Deed κ)
  | killSession (session : SessionId) (clock : JobId → Nat)

def Act.deeds (j : Jobs κ) : Act κ → List (Deed κ)
  | deed d => [d]
  | killSession session clock => (j.runningIn session).map fun id => .kill id (clock id)

/- Jobs, and for the reasoning alone: which jobs were ever made and with which signals, what each kill
returned, and which jobs were cleared away when they ran no longer. -/
structure History (κ : Type) where
  jobs : Jobs κ := .empty
  created : List (JobId × SignalId) := []
  kills : List (JobId × Except JobError KillOutcome) := []
  cleared : List JobId := []

def creates (j : Jobs κ) : Deed κ → List (JobId × SignalId)
  | .create session command now => [((j.create session command now).1, j.signals.create.1)]
  | _ => []

def kills (j : Jobs κ) : Deed κ → List (JobId × Except JobError KillOutcome)
  | .kill id now => [(id, (j.kill id now).1)]
  | _ => []

def clears (j : Jobs κ) : Deed κ → List JobId
  | .clearFinished => (j.table.entries.filter fun e => e.2.status.isFinal).map Prod.fst
  | _ => []

namespace History

def add (h : History κ) (d : Deed κ) : History κ where
  jobs := d.run h.jobs
  created := h.created ++ creates h.jobs d
  kills := h.kills ++ JobHistory.kills h.jobs d
  cleared := h.cleared ++ clears h.jobs d

def act (h : History κ) (a : Act κ) : History κ := (a.deeds h.jobs).foldl add h

def after (h : History κ) (acts : List (Act κ)) : History κ := acts.foldl act h

end History

def numbered (count : Nat) : List (JobId × SignalId) :=
  (List.range count).map fun n => (⟨n + 1⟩, ⟨n⟩)

structure Settled (job : Job) : Prop where
  ended : job.endedAt.isSome = job.status.isFinal
  error : job.error.isSome = decide (job.status = .failed)

structure Kept (h : History κ) : Prop where
  sorted : h.jobs.table.Sorted
  numbered : h.created = numbered h.jobs.lastId
  signals : h.jobs.signals.all.length = h.jobs.lastId
  own : ∀ id job, h.jobs.table.get? id = some job → (id, job.signal) ∈ h.created
  settled : ∀ id job, h.jobs.table.get? id = some job → Settled job
  fired : ∀ e ∈ h.created, h.jobs.signals.isFired e.2 = true ↔ (e.1, .ok .killed) ∈ h.kills
  killed : ∀ id, (id, .ok .killed) ∈ h.kills → id ∈ h.created.map Prod.fst
  gone : ∀ id ∈ h.cleared, id ∈ h.created.map Prod.fst
  present : ∀ id, h.jobs.table.contains id = true ↔ id ∈ h.created.map Prod.fst ∧ id ∉ h.cleared

theorem numberedMember {count : Nat} {e : JobId × SignalId} :
    e ∈ numbered count ↔ e.2.index < count ∧ e.1.number = e.2.index + 1 := by
  obtain ⟨⟨n⟩, ⟨i⟩⟩ := e
  simp only [numbered, List.mem_map, List.mem_range, Prod.mk.injEq, JobId.mk.injEq, SignalId.mk.injEq]
  constructor
  · rintro ⟨m, less, rfl, rfl⟩
    exact ⟨less, rfl⟩
  · rintro ⟨less, rfl⟩
    exact ⟨i, less, rfl, rfl⟩

theorem numberedNumbers (count : Nat) :
    (numbered count).map Prod.fst = (List.range count).map fun n => ⟨n + 1⟩ := by
  simp [numbered]

theorem numberedSignals (count : Nat) :
    (numbered count).map Prod.snd = (List.range count).map SignalId.mk := by
  simp [numbered]

theorem numberedAdd (count : Nat) :
    numbered (count + 1) = numbered count ++ [(⟨count + 1⟩, ⟨count⟩)] := by
  simp [numbered, List.range_succ]

section Deeds

variable {h : History κ} (kept : Kept h)

include kept

theorem keptSet {id : JobId} {job : Job} (found : h.jobs.table.get? id = some job) (new : Job)
    (signal : new.signal = job.signal) (settled : Settled new) (notices : Nat) :
    Kept { h with jobs := { h.jobs with table := h.jobs.table.insert id new, notices } } where
  sorted := Dict.sortedInsert jobTrans jobTotal kept.sorted id new
  numbered := kept.numbered
  signals := kept.signals
  own other stored present := by
    rw [Dict.getInsert] at present
    split at present
    · rename_i same
      cases present
      rw [same, signal]
      exact kept.own id job found
    · exact kept.own other stored present
  settled other stored present := by
    rw [Dict.getInsert] at present
    split at present
    · cases present
      exact settled
    · exact kept.settled other stored present
  fired := kept.fired
  killed := kept.killed
  gone := kept.gone
  present other := by
    have there : h.jobs.table.contains id = true := by simp [Dict.contains, found]
    rw [Dict.containsInsert, ← kept.present]
    by_cases same : other = id <;> simp [same, there]

theorem keptFire {id : JobId} {signal : SignalId} (own : (id, signal) ∈ h.created) :
    Kept { h with
      jobs := { h.jobs with signals := (h.jobs.signals.fire signal).2 }
      kills := h.kills ++ [(id, .ok .killed)] } where
  sorted := kept.sorted
  numbered := kept.numbered
  signals := (Signals.longFire _ _).trans kept.signals
  own := kept.own
  settled := kept.settled
  fired e mem := by
    have mine := own
    have other := mem
    simp only [kept.numbered] at mine other
    obtain ⟨known, number⟩ := numberedMember.mp mine
    obtain ⟨-, otherNumber⟩ := numberedMember.mp other
    have together : e.2 = signal ↔ e.1 = id := by
      rw [← Signals.sameSignal, ← sameJob]
      dsimp only at number
      omega
    rw [← kept.signals] at known
    rw [Signals.firedFire known]
    simp only [Bool.or_eq_true, decide_eq_true_eq, List.mem_append, List.mem_singleton,
      Prod.mk.injEq, and_true, together, kept.fired e mem]
    exact or_comm
  killed other mem := by
    rcases List.mem_append.mp mem with before | mine
    · exact kept.killed other before
    · cases List.mem_singleton.mp mine
      exact List.mem_map.mpr ⟨_, own, rfl⟩
  gone := kept.gone
  present := kept.present

theorem freshNumber : (⟨h.jobs.lastId + 1⟩ : JobId) ∉ h.created.map Prod.fst := by
  intro mem
  obtain ⟨e, listed, same⟩ := List.mem_map.mp mem
  rw [kept.numbered] at listed
  obtain ⟨less, number⟩ := numberedMember.mp listed
  rw [same] at number
  dsimp only at number
  omega

theorem keptCreate (session : SessionId) (command : Text) (now : Nat) :
    Kept (h.add (.create session command now)) := by
  have fresh := freshNumber kept
  have made : ∀ e ∈ creates h.jobs (.create session command now),
      e = (⟨h.jobs.lastId + 1⟩, h.jobs.signals.create.1) := by
    intro e mem
    exact List.mem_singleton.mp mem
  have place (id : JobId) : id ∈ (h.created ++
        creates h.jobs (.create session command now)).map Prod.fst ↔
      id ∈ h.created.map Prod.fst ∨ id = ⟨h.jobs.lastId + 1⟩ := by
    simp [creates, Jobs.create]
  simp only [History.add, JobHistory.kills, clears, List.append_nil]
  refine ⟨?_, ?_, ?_, ?_, ?_, ?_, ?_, ?_, ?_⟩
  · exact Dict.sortedInsert jobTrans jobTotal kept.sorted _ _
  · have signal : h.jobs.signals.create.1 = ⟨h.jobs.lastId⟩ := congrArg SignalId.mk kept.signals
    change _ = JobHistory.numbered (h.jobs.lastId + 1)
    rw [numberedAdd, ← kept.numbered, ← signal]
    rfl
  · change h.jobs.signals.create.2.all.length = h.jobs.lastId + 1
    simp [Signals.create, kept.signals]
  · intro id job found
    change (h.jobs.table.insert _ _).get? id = some job at found
    rw [Dict.getInsert] at found
    split at found
    · rename_i same
      cases found
      exact List.mem_append_right _ (same ▸ List.mem_singleton_self _)
    · exact List.mem_append_left _ (kept.own id job found)
  · intro id job found
    change (h.jobs.table.insert _ _).get? id = some job at found
    rw [Dict.getInsert] at found
    split at found
    · cases found
      exact ⟨rfl, rfl⟩
    · exact kept.settled id job found
  · intro e mem
    change h.jobs.signals.create.2.isFired e.2 = true ↔ _
    rw [Signals.firedCreate]
    rcases List.mem_append.mp mem with before | new
    · exact kept.fired e before
    · rw [made e new]
      refine iff_of_false ?_ fun killed => fresh (kept.killed _ killed)
      simp [Signals.isFired, Signals.get?, Signals.create]
  · exact fun id mem => (place id).mpr (.inl (kept.killed id mem))
  · exact fun id mem => (place id).mpr (.inl (kept.gone id mem))
  · intro id
    change (h.jobs.table.insert _ _).contains id = true ↔ _
    rw [Dict.containsInsert, place, Bool.or_eq_true, decide_eq_true_eq, kept.present]
    constructor
    · rintro (rfl | ⟨known, stays⟩)
      · exact ⟨.inr rfl, fun mem => fresh (kept.gone _ mem)⟩
      · exact ⟨.inl known, stays⟩
    · rintro ⟨known | rfl, stays⟩
      · exact .inr ⟨known, stays⟩
      · exact .inl rfl

theorem clearsMember {id : JobId} :
    id ∈ clears h.jobs .clearFinished ↔
      ∃ job, h.jobs.table.get? id = some job ∧ job.status.isFinal = true := by
  simp only [clears, List.mem_map, List.mem_filter, Prod.exists, Dict.foundIff kept.sorted jobStrict]
  constructor
  · rintro ⟨other, job, ⟨listed, final⟩, rfl⟩
    exact ⟨job, listed, final⟩
  · rintro ⟨job, listed, final⟩
    exact ⟨id, job, ⟨listed, final⟩, rfl⟩

theorem clearedFound {id : JobId} {job : Job} :
    h.jobs.clearFinished.2.table.get? id = some job ↔
      h.jobs.table.get? id = some job ∧ job.status.isFinal = false := by
  change (h.jobs.table.keep _).get? id = some job ↔ _
  rw [Dict.foundKeep kept.sorted jobStrict]
  cases job.status <;> simp [JobStatus.isFinal]

theorem keptClear : Kept (h.add .clearFinished) := by
  simp only [History.add, JobHistory.kills, creates, List.append_nil]
  refine ⟨Dict.sortedKeep kept.sorted _, kept.numbered, kept.signals, ?_, ?_, kept.fired,
    kept.killed, ?_, ?_⟩
  · exact fun id job stays => kept.own id job ((clearedFound kept).mp stays).1
  · exact fun id job stays => kept.settled id job ((clearedFound kept).mp stays).1
  · intro id mem
    rcases List.mem_append.mp mem with before | new
    · exact kept.gone id before
    · obtain ⟨job, there, -⟩ := (clearsMember kept).mp new
      exact List.mem_map.mpr ⟨_, kept.own id job there, rfl⟩
  · intro id
    have before := kept.present id
    change h.jobs.clearFinished.2.table.contains id = true ↔ _
    rw [List.mem_append, not_or, clearsMember kept, ← and_assoc, ← before]
    unfold Dict.contains
    simp only [Option.isSome_iff_exists]
    constructor
    · rintro ⟨job, stays⟩
      obtain ⟨there, running⟩ := (clearedFound kept).mp stays
      refine ⟨⟨job, there⟩, ?_⟩
      rintro ⟨other, same, final⟩
      cases there.symm.trans same
      simp [running] at final
    · rintro ⟨⟨job, there⟩, running⟩
      refine ⟨job, (clearedFound kept).mpr ⟨there, ?_⟩⟩
      cases final : job.status.isFinal with
      | false => rfl
      | true => exact absurd ⟨job, there, final⟩ running

theorem keptKill (id : JobId) (now : Nat) : Kept (h.add (.kill id now)) := by
  simp only [History.add, JobHistory.kills, creates, clears, List.append_nil]
  rcases h.jobs.killCases id now with ⟨job, found, running, outcome, same⟩ | ⟨-, outcome, same⟩
  · have error : job.error.isSome = false := by
      rw [(kept.settled id job found).error]
      cases status : job.status <;> simp_all [JobStatus.isFinal]
    have marked := keptSet kept found { job with status := .killed, endedAt := some now } rfl
      ⟨rfl, error⟩ (h.jobs.notices + 1)
    have fired := keptFire marked (kept.own id job found)
    change Kept { h with
      jobs := (h.jobs.kill id now).2.2, kills := h.kills ++ [(id, (h.jobs.kill id now).1)] }
    rw [same, outcome]
    exact fired
  · change Kept { h with
      jobs := (h.jobs.kill id now).2.2, kills := h.kills ++ [(id, (h.jobs.kill id now).1)] }
    rw [same]
    have other (e : JobId) : (e, .ok .killed) ∈ h.kills ++ [(id, (h.jobs.kill id now).1)] ↔
        (e, .ok .killed) ∈ h.kills := by
      simp [Ne.symm outcome]
    exact { kept with
      fired := fun e mem => (kept.fired e mem).trans (other e.1).symm
      killed := fun e mem => kept.killed e ((other e).mp mem) }

omit kept in
theorem keptSilent (d : Deed κ) (done : Kept { h with jobs := d.run h.jobs })
    (silent : creates h.jobs d = [] ∧ JobHistory.kills h.jobs d = [] ∧ clears h.jobs d = []) :
    Kept (h.add d) := by
  obtain ⟨creates, kills, clears⟩ := silent
  simpa only [History.add, creates, kills, clears, List.append_nil] using done

theorem keptSettle (id : JobId) (result : JobResult) (now : Nat) :
    Kept { h with jobs := h.jobs.settle id result now } := by
  rcases h.jobs.settleCases id result now with ⟨job, found, running, same⟩ | ⟨-, same⟩
  · rw [same]
    refine keptSet kept found
      { job with status := result.status, endedAt := some now, error := result.error? } rfl ?_ _
    cases result <;> exact ⟨rfl, rfl⟩
  · rw [same]
    exact kept

theorem keptQueue (signal : SignalId) (item : κ) :
    Kept { h with jobs := h.jobs.queue signal item } :=
  { kept with
    signals := (Signals.longQueue _ _ _).trans kept.signals
    fired := by
      intro e mem
      change (h.jobs.signals.queue signal item).isFired e.2 = true ↔ _
      rw [Signals.firedQueue]
      exact kept.fired e mem }

theorem keptOutput {α : Type} (id : JobId) (change : Buffer → α × Buffer) :
    Kept { h with jobs := (h.jobs.onOutput id change).2 } := by
  unfold Jobs.onOutput
  split
  · exact kept
  · rename_i job found
    have settled := kept.settled id job found
    exact keptSet kept found { job with output := (change job.output).2 } rfl
      ⟨settled.ended, settled.error⟩ h.jobs.notices

theorem keptAdd (d : Deed κ) : Kept (h.add d) := by
  cases d with
  | create session command now => exact keptCreate kept session command now
  | kill id now => exact keptKill kept id now
  | clearFinished => exact keptClear kept
  | settle id result now => exact keptSilent _ (keptSettle kept id result now) ⟨rfl, rfl, rfl⟩
  | queue signal item => exact keptSilent _ (keptQueue kept signal item) ⟨rfl, rfl, rfl⟩
  | print id kind text =>
    exact keptSilent _ (keptOutput kept id fun b => b.print kind text) ⟨rfl, rfl, rfl⟩
  | update id group text =>
    exact keptSilent _ (keptOutput kept id fun b => b.update group text) ⟨rfl, rfl, rfl⟩
  | delete id group =>
    exact keptSilent _ (keptOutput kept id fun b => b.delete group) ⟨rfl, rfl, rfl⟩
  | clearOutput id => exact keptSilent _ (keptOutput kept id fun b => ((), b.clear)) ⟨rfl, rfl, rfl⟩

theorem keptAct (a : Act κ) : Kept (h.act a) := by
  unfold History.act
  generalize a.deeds h.jobs = deeds
  induction deeds generalizing h with
  | nil => exact kept
  | cons d later ih => exact ih (keptAdd kept d)

theorem keptAfter (acts : List (Act κ)) : Kept (h.after acts) := by
  induction acts generalizing h with
  | nil => exact kept
  | cons a later ih => exact ih (keptAct kept a)

end Deeds

theorem keptStart : Kept ({} : History κ) where
  sorted := List.Pairwise.nil
  numbered := rfl
  signals := rfl
  own id job found := by cases found
  settled id job found := by cases found
  fired e mem := by cases mem
  killed id mem := by cases mem
  gone id mem := by cases mem
  present id := by simp [Dict.contains, Jobs.empty, Dict.empty, Dict.get?]

structure Follows (before after : Job) : Prop where
  signal : after.signal = before.signal
  status : before.status.isFinal = true → after.status = before.status
  ended : before.status.isFinal = true → after.endedAt = before.endedAt
  error : before.status.isFinal = true → after.error = before.error

theorem Follows.refl (job : Job) : Follows job job :=
  ⟨rfl, fun _ => rfl, fun _ => rfl, fun _ => rfl⟩

theorem Follows.trans {first second third : Job} (near : Follows first second)
    (far : Follows second third) : Follows first third := by
  have still (final : first.status.isFinal = true) : second.status.isFinal = true := by
    rw [near.status final]
    exact final
  exact ⟨far.signal.trans near.signal,
    fun final => (far.status (still final)).trans (near.status final),
    fun final => (far.ended (still final)).trans (near.ended final),
    fun final => (far.error (still final)).trans (near.error final)⟩

theorem Follows.running {before after : Job} (running : before.status.isFinal = false)
    (signal : after.signal = before.signal) : Follows before after := by
  refine ⟨signal, ?_, ?_, ?_⟩ <;>
  · intro final
    rw [running] at final
    contradiction

theorem setFollows {j : Jobs κ} {id other : JobId} {job new after : Job}
    (found : j.table.get? id = some job) (there : (j.table.insert id new).get? other = some after)
    (follows : Follows job new) :
    ∃ before, j.table.get? other = some before ∧ Follows before after := by
  rw [Dict.getInsert] at there
  split at there
  · rename_i same
    cases there
    exact ⟨job, same ▸ found, follows⟩
  · exact ⟨after, there, .refl after⟩

section Later

variable {h : History κ} (kept : Kept h)

include kept

theorem followsAdd {id : JobId} (known : id ∈ h.created.map Prod.fst) (d : Deed κ) {after : Job}
    (there : (h.add d).jobs.table.get? id = some after) :
    ∃ before, h.jobs.table.get? id = some before ∧ Follows before after := by
  change (d.run h.jobs).table.get? id = some after at there
  have changes := h.jobs.deedChanges d
  generalize d.run h.jobs = next at there changes
  cases changes with
  | none | queue => exact ⟨after, there, .refl after⟩
  | create session command now =>
    change (h.jobs.table.insert _ _).get? id = some after at there
    rw [Dict.getInsert] at there
    split at there
    · rename_i same
      exact absurd (same ▸ known) (freshNumber kept)
    · exact ⟨after, there, .refl after⟩
  | settle found running result now => exact setFollows found there (.running running rfl)
  | kill found running now => exact setFollows found there (.running running rfl)
  | clearFinished => exact ⟨after, ((clearedFound kept).mp there).1, .refl after⟩
  | output found output =>
    exact setFollows found there ⟨rfl, fun _ => rfl, fun _ => rfl, fun _ => rfl⟩

omit kept in
theorem createdAdd (d : Deed κ) {id : JobId} (known : id ∈ h.created.map Prod.fst) :
    id ∈ (h.add d).created.map Prod.fst := by
  rw [History.add, List.map_append]
  exact List.mem_append_left _ known

theorem followsAct {id : JobId} (known : id ∈ h.created.map Prod.fst) (a : Act κ) :
    id ∈ (h.act a).created.map Prod.fst ∧
      ∀ after, (h.act a).jobs.table.get? id = some after →
        ∃ before, h.jobs.table.get? id = some before ∧ Follows before after := by
  unfold History.act
  generalize a.deeds h.jobs = deeds
  induction deeds generalizing h with
  | nil => exact ⟨known, fun after there => ⟨after, there, .refl after⟩⟩
  | cons d later ih =>
    obtain ⟨listed, follows⟩ := ih (keptAdd kept d) (createdAdd d known)
    refine ⟨listed, fun after there => ?_⟩
    obtain ⟨between, found, far⟩ := follows after there
    obtain ⟨before, first, near⟩ := followsAdd kept known d found
    exact ⟨before, first, near.trans far⟩

theorem followsAfter {id : JobId} (known : id ∈ h.created.map Prod.fst) (acts : List (Act κ)) :
    ∀ after, (h.after acts).jobs.table.get? id = some after →
      ∃ before, h.jobs.table.get? id = some before ∧ Follows before after := by
  induction acts generalizing h with
  | nil => exact fun after there => ⟨after, there, .refl after⟩
  | cons a later ih =>
    intro after there
    obtain ⟨listed, follows⟩ := followsAct kept known a
    obtain ⟨between, found, far⟩ := ih (keptAct kept a) listed after there
    obtain ⟨before, first, near⟩ := follows between found
    exact ⟨before, first, near.trans far⟩

end Later

structure Lifecycle (h : History κ) : Prop where
  stays : ∀ later id before after, h.jobs.table.get? id = some before →
    before.status.isFinal = true → (h.after later).jobs.table.get? id = some after →
    after.status = before.status ∧ after.endedAt = before.endedAt ∧ after.error = before.error
  ended : ∀ id job, h.jobs.table.get? id = some job →
    (job.endedAt.isSome = true ↔ job.status.isFinal = true)
  error : ∀ id job, h.jobs.table.get? id = some job →
    (job.error.isSome = true ↔ job.status = .failed)
  own : ∀ id job, h.jobs.table.get? id = some job → (id, job.signal) ∈ h.created
  apart : (h.created.map Prod.snd).Nodup
  fired : ∀ id signal, (id, signal) ∈ h.created →
    (h.jobs.signals.isFired signal = true ↔ (id, .ok .killed) ∈ h.kills)
  inTurn : h.created.map Prod.fst = (List.range h.created.length).map fun n => ⟨n + 1⟩
  present : ∀ id, h.jobs.table.contains id = true ↔
    id ∈ h.created.map Prod.fst ∧ id ∉ h.cleared

theorem lifecycleKept {h : History κ} (kept : Kept h) : Lifecycle h where
  stays later id before after found final there := by
    have known : id ∈ h.created.map Prod.fst := List.mem_map.mpr ⟨_, kept.own id before found, rfl⟩
    obtain ⟨same, earlier, follows⟩ := followsAfter kept known later after there
    cases found.symm.trans earlier
    exact ⟨follows.status final, follows.ended final, follows.error final⟩
  ended id job found := by rw [(kept.settled id job found).ended]
  error id job found := by rw [(kept.settled id job found).error, decide_eq_true_eq]
  own := kept.own
  apart := by
    rw [kept.numbered, numberedSignals]
    exact List.Pairwise.map _ (fun a b other same => other (SignalId.mk.inj same)) List.nodup_range
  fired id signal listed := kept.fired _ listed
  inTurn := by
    rw [kept.numbered, numberedNumbers]
    simp [JobHistory.numbered]
  present := kept.present

theorem jobLifecycle (acts : List (Act κ)) : Lifecycle (History.after {} acts) :=
  lifecycleKept (keptAfter keptStart acts)

end ConsoleShell.JobHistory
