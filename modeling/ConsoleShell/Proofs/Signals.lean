import ConsoleShell.Signal

/-! Signals only ever grow in number, and one that has fired stays fired. -/
namespace ConsoleShell.Signals

variable {κ : Type}

structure Grown (s t : Signals κ) : Prop where
  long : s.all.length ≤ t.all.length
  fired : ∀ id, s.isFired id = true → t.isFired id = true

theorem Grown.refl (s : Signals κ) : Grown s s := ⟨Nat.le_refl _, fun _ fired => fired⟩

theorem Grown.trans {s t u : Signals κ} (first : Grown s t) (second : Grown t u) : Grown s u :=
  ⟨Nat.le_trans first.long second.long, fun id fired => second.fired id (first.fired id fired)⟩

theorem firedFound {s : Signals κ} {id : SignalId} :
    s.isFired id = true ↔ ∃ signal, s.all[id.index]? = some signal ∧ signal.fired = true := by
  unfold isFired get?
  cases s.all[id.index]? <;> simp

theorem grownCreate (s : Signals κ) : Grown s s.create.2 := by
  refine ⟨by simp [create], fun id fired => ?_⟩
  obtain ⟨signal, found, fired⟩ := firedFound.mp fired
  obtain ⟨inside, -⟩ := List.getElem?_eq_some_iff.mp found
  refine firedFound.mpr ⟨signal, ?_, fired⟩
  unfold create
  rw [List.getElem?_append_left inside, found]

theorem grownFire (s : Signals κ) (id : SignalId) : Grown s (s.fire id).2 := by
  unfold fire
  split
  · exact Grown.refl s
  · split
    · exact Grown.refl s
    · refine ⟨by simp, fun other fired => ?_⟩
      obtain ⟨signal, found, fired⟩ := firedFound.mp fired
      obtain ⟨inside, -⟩ := List.getElem?_eq_some_iff.mp found
      refine firedFound.mpr ?_
      by_cases same : id.index = other.index
      · exact ⟨{ fired := true }, by simp [same, inside], rfl⟩
      · exact ⟨signal, by simpa [List.getElem?_set_ne same] using found, fired⟩

theorem grownQueue (s : Signals κ) (id : SignalId) (item : κ) : Grown s (s.queue id item) := by
  refine ⟨by simp [queue], fun other fired => ?_⟩
  obtain ⟨signal, found, fired⟩ := firedFound.mp fired
  refine firedFound.mpr ⟨signal, ?_, fired⟩
  unfold queue
  rw [List.getElem?_modify, found]
  by_cases same : id.index = other.index <;> simp [same, fired]

theorem firedAfter {s : Signals κ} {id : SignalId} (known : id.index < s.all.length) :
    (s.fire id).2.isFired id = true := by
  have found : s.all[id.index]? = some s.all[id.index] := List.getElem?_eq_getElem known
  unfold fire get?
  rw [found]
  dsimp only
  split
  · rename_i fired
    exact firedFound.mpr ⟨_, found, fired⟩
  · exact firedFound.mpr ⟨{ fired := true }, by simp [known], rfl⟩

theorem sameSignal {a b : SignalId} : a.index = b.index ↔ a = b := by
  cases a
  cases b
  simp

theorem firedState {s : Signals κ} {id : SignalId} {signal : Signal κ}
    (found : s.get? id = some signal) : s.isFired id = signal.fired := by
  simp [isFired, found]

theorem knownFound {s : Signals κ} {id : SignalId} :
    id.index < s.all.length ↔ ∃ signal, s.get? id = some signal := by
  simp [get?, ← Option.isSome_iff_exists]

theorem getCreate (s : Signals κ) (id : SignalId) :
    s.create.2.get? id = if id = s.create.1 then some {} else s.get? id := by
  unfold create get?
  dsimp only
  rw [List.getElem?_append]
  by_cases old : id.index < s.all.length
  · rw [if_pos old, if_neg]
    rintro rfl
    exact Nat.lt_irrefl _ old
  · rw [if_neg old]
    split
    · rename_i new
      simp [new]
    · rename_i other
      have apart : id.index ≠ s.all.length := fun same => other (sameSignal.mp same)
      rw [List.getElem?_eq_none (Nat.le_of_not_lt old), List.getElem?_eq_none]
      simp only [List.length_singleton]
      omega

theorem fireAgain {s : Signals κ} {id : SignalId}
    (spent : ∀ signal, s.get? id = some signal → signal.fired = true) : s.fire id = (none, s) := by
  unfold fire
  split
  · rfl
  · rename_i signal found
    rw [if_pos (spent signal found)]

theorem fireFirst {s : Signals κ} {id : SignalId} {signal : Signal κ}
    (found : s.get? id = some signal) (unfired : signal.fired = false) :
    (s.fire id).1 = some signal.waiting ∧
      ∀ other, (s.fire id).2.get? other =
        if other = id then some { fired := true } else s.get? other := by
  obtain ⟨inside, -⟩ := List.getElem?_eq_some_iff.mp found
  unfold fire
  simp only [found, unfired, Bool.false_eq_true, if_false, true_and]
  intro other
  unfold get?
  by_cases same : other = id
  · simp [same, inside]
  · have apart : id.index ≠ other.index := fun equal => same (sameSignal.mp equal).symm
    rw [List.getElem?_set_ne apart, if_neg same]

theorem getQueue {s : Signals κ} {id : SignalId} (unfired : s.isFired id = false) (item : κ)
    (other : SignalId) : (s.queue id item).get? other =
      if other = id then (s.get? id).map fun signal => { signal with waiting := signal.waiting ++ [item] }
      else s.get? other := by
  unfold queue get?
  rw [List.getElem?_modify]
  by_cases same : other = id
  · subst same
    cases found : s.all[other.index]? with
    | none => simp
    | some signal =>
      have closed : signal.fired = false := (firedState found).symm.trans unfired
      simp [closed]
  · have apart : id.index ≠ other.index := fun equal => same (sameSignal.mp equal).symm
    simp [same, apart]

theorem firedCreate (s : Signals κ) (id : SignalId) : s.create.2.isFired id = s.isFired id := by
  unfold isFired
  rw [getCreate]
  split
  · rename_i new
    have missing : s.get? id = none := by
      rw [new]
      exact List.getElem?_eq_none (Nat.le_refl _)
    simp [missing]
  · rfl

theorem firedQueue (s : Signals κ) (id : SignalId) (item : κ) (other : SignalId) :
    (s.queue id item).isFired other = s.isFired other := by
  unfold queue isFired get?
  rw [List.getElem?_modify]
  cases s.all[other.index]? with
  | none => simp
  | some signal => by_cases same : id.index = other.index <;> by_cases state : signal.fired = true <;>
      simp [same, state]

theorem firedFire {s : Signals κ} {id : SignalId} (known : id.index < s.all.length)
    (other : SignalId) : (s.fire id).2.isFired other = (decide (other = id) || s.isFired other) := by
  obtain ⟨signal, found⟩ := knownFound.mp known
  cases state : signal.fired with
  | true =>
    rw [fireAgain fun same listed => (Option.some.inj (found.symm.trans listed)) ▸ state]
    by_cases same : other = id
    · simp [same, firedState found, state]
    · simp [same]
  | false =>
    unfold isFired
    rw [(fireFirst found state).2]
    by_cases same : other = id <;> simp [same]

theorem longFire (s : Signals κ) (id : SignalId) : (s.fire id).2.all.length = s.all.length := by
  unfold fire
  split
  · rfl
  · split <;> simp

theorem longQueue (s : Signals κ) (id : SignalId) (item : κ) :
    (s.queue id item).all.length = s.all.length := by
  simp [queue]

end ConsoleShell.Signals
