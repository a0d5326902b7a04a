import ConsoleShell.Proofs.Basic
import ConsoleShell.Proofs.Signals
import ConsoleShell.Scope

/-! Registrations of callbacks and the order in which the callbacks are set free. A callback waits with
its signal until the signal fires, or is set free at once if that has happened: so at any moment
the ones that were set free are exactly those whose signal has fired, each of them once. -/
namespace ConsoleShell

variable {ν : Type}

structure Registration (ν : Type) where
  signal : SignalId
  callback : Callback ν
  queued : Bool
  deriving DecidableEq, Repr

namespace Registration

def numbers (registered : List (Registration ν)) (id : SignalId) : List Nat :=
  (List.range registered.length).filter fun n =>
    registered[n]?.any fun r => decide (r.signal = id)

theorem numbersMember {registered : List (Registration ν)} {id : SignalId} {n : Nat} :
    n ∈ numbers registered id ↔ ∃ r, registered[n]? = some r ∧ r.signal = id := by
  simp only [numbers, List.mem_filter, List.mem_range, Option.any_eq_true, decide_eq_true_eq]
  constructor
  · exact fun h => h.2
  · rintro ⟨r, found, same⟩
    exact ⟨(List.getElem?_eq_some_iff.mp found).1, r, found, same⟩

theorem numbersAscend (registered : List (Registration ν)) (id : SignalId) :
    (numbers registered id).Pairwise (· < ·) :=
  List.pairwise_lt_range.filter _

theorem earlierFound (registered : List (Registration ν)) (r : Registration ν) {n : Nat}
    (earlier : n < registered.length) : (registered ++ [r])[n]? = registered[n]? :=
  List.getElem?_append_left earlier

theorem foundAdded {registered : List (Registration ν)} {r q : Registration ν} {n : Nat} :
    (registered ++ [r])[n]? = some q ↔ registered[n]? = some q ∨ n = registered.length ∧ r = q := by
  rcases Nat.lt_trichotomy n registered.length with earlier | rfl | later
  · simp [earlierFound _ _ earlier, Nat.ne_of_lt earlier]
  · simp
  · have beyond : (registered ++ [r]).length ≤ n := by
      rw [List.length_append]
      exact later
    rw [List.getElem?_eq_none beyond, List.getElem?_eq_none (Nat.le_of_lt later)]
    simp [Nat.ne_of_gt later]

theorem numbersAdd (registered : List (Registration ν)) (r : Registration ν) (id : SignalId) :
    numbers (registered ++ [r]) id =
      numbers registered id ++ if r.signal = id then [registered.length] else [] := by
  unfold numbers
  rw [List.length_append, List.length_singleton, List.range_succ, List.filter_append]
  congr 1
  · refine List.filter_congr fun n inside => ?_
    rw [earlierFound _ _ (List.mem_range.mp inside)]
  · by_cases same : r.signal = id <;> simp [same]

def callbacks (registered : List (Registration ν)) (id : SignalId) : List (Option (Callback ν)) :=
  (numbers registered id).map fun n => registered[n]?.map Registration.callback

theorem callbacksAdd (registered : List (Registration ν)) (r : Registration ν) (id : SignalId) :
    callbacks (registered ++ [r]) id =
      callbacks registered id ++ if r.signal = id then [some r.callback] else [] := by
  have before : ((numbers registered id).map fun n =>
      (registered ++ [r])[n]?.map Registration.callback) = callbacks registered id := by
    refine List.map_congr_left fun n mem => ?_
    obtain ⟨q, found, -⟩ := numbersMember.mp mem
    rw [earlierFound _ _ (List.getElem?_eq_some_iff.mp found).1]
  unfold callbacks at before ⊢
  rw [numbersAdd, List.map_append, before]
  by_cases same : r.signal = id <;> simp [same]

def InTurn (registered : List (Registration ν)) (a b : Nat) : Prop :=
  ∀ first second, registered[a]? = some first → registered[b]? = some second →
    first.queued = true → second.queued = true → first.signal = second.signal → a < b

/- The signals agree with the registrations and with the order in which callbacks were set free. -/
structure Tally (signals : Signals (Callback ν)) (registered : List (Registration ν))
    (order : List Nat) : Prop where
  known : ∀ r ∈ registered, r.signal.index < signals.all.length
  waits : ∀ id signal, signals.get? id = some signal → signal.fired = false →
    signal.waiting.map some = callbacks registered id
  spent : ∀ id signal, signals.get? id = some signal → signal.fired = true → signal.waiting = []
  once : order.Nodup
  free : ∀ n, n ∈ order ↔ ∃ r, registered[n]? = some r ∧ signals.isFired r.signal = true
  inTurn : order.Pairwise (InTurn registered)

def freed (signals : Signals (Callback ν)) (registered : List (Registration ν)) (id : SignalId) :
    List Nat :=
  if signals.isFired id then [] else numbers registered id

theorem tallyEmpty : Tally (ν := ν) .empty [] [] := by
  refine ⟨?_, ?_, ?_, List.nodup_nil, ?_, .nil⟩ <;> simp [Signals.empty, Signals.get?]

theorem pairwiseBetween {α : Type} {R : α → α → Prop} {front back added : List α}
    (before : (front ++ back).Pairwise R) (new : added.Pairwise R)
    (apart : ∀ a ∈ front ++ back, ∀ b ∈ added, R a b ∧ R b a) :
    (front ++ added ++ back).Pairwise R := by
  obtain ⟨first, last, across⟩ := List.pairwise_append.mp before
  rw [List.append_assoc]
  refine List.pairwise_append.mpr ⟨first, List.pairwise_append.mpr ⟨new, last, ?_⟩, ?_⟩
  · exact fun b inside a behind => (apart a (List.mem_append_right _ behind) b inside).2
  · intro a ahead b inside
    rcases List.mem_append.mp inside with isNew | behind
    · exact (apart a (List.mem_append_left _ ahead) b isNew).1
    · exact across a ahead b behind

section Changes

variable {signals : Signals (Callback ν)} {registered : List (Registration ν)}

theorem tallyCreate {order : List Nat} (h : Tally signals registered order) :
    Tally signals.create.2 registered order := by
  have unused : numbers registered signals.create.1 = [] := by
    refine List.eq_nil_iff_forall_not_mem.mpr fun n mem => ?_
    obtain ⟨r, found, same⟩ := numbersMember.mp mem
    have known := h.known r (List.mem_of_getElem? found)
    rw [same] at known
    exact Nat.lt_irrefl _ known
  refine ⟨?_, ?_, ?_, h.once, ?_, h.inTurn⟩
  · exact fun r mem => Nat.lt_of_lt_of_le (h.known r mem) (Signals.grownCreate signals).long
  · intro id signal found unfired
    rw [Signals.getCreate] at found
    split at found
    · rename_i same
      cases found
      simp [same, callbacks, unused]
    · exact h.waits id signal found unfired
  · intro id signal found fired
    rw [Signals.getCreate] at found
    split at found
    · cases found
      rfl
    · exact h.spent id signal found fired
  · simp only [Signals.firedCreate]
    exact h.free

theorem fireNothing {id : SignalId}
    (stale : ¬ ∃ signal, signals.get? id = some signal ∧ signal.fired = false) :
    signals.fire id = (none, signals) := by
  refine Signals.fireAgain fun signal found => ?_
  cases state : signal.fired with
  | true => rfl
  | false => exact absurd ⟨signal, found, state⟩ stale

theorem freedNothing {order : List Nat} (h : Tally signals registered order) {id : SignalId}
    (stale : ¬ ∃ signal, signals.get? id = some signal ∧ signal.fired = false) :
    freed signals registered id = [] := by
  unfold freed
  split
  · rfl
  · rename_i unfired
    refine List.eq_nil_iff_forall_not_mem.mpr fun n mem => stale ?_
    obtain ⟨r, found, rfl⟩ := numbersMember.mp mem
    obtain ⟨signal, there⟩ := Signals.knownFound.mp (h.known r (List.mem_of_getElem? found))
    exact ⟨signal, there, by simpa [Signals.firedState there] using unfired⟩

/- What fires is set free behind what was set free before and has already begun, and before the
rest. -/
theorem tallyFire {front back : List Nat} (h : Tally signals registered (front ++ back))
    (id : SignalId) :
    Tally (signals.fire id).2 registered (front ++ freed signals registered id ++ back) := by
  by_cases fresh : ∃ signal, signals.get? id = some signal ∧ signal.fired = false
  · obtain ⟨signal, there, unfired⟩ := fresh
    have closed : signals.isFired id = false := (Signals.firedState there).trans unfired
    have known : id.index < signals.all.length := Signals.knownFound.mpr ⟨signal, there⟩
    have after := (Signals.fireFirst there unfired).2
    have apart : ∀ a ∈ front ++ back, ∀ b ∈ numbers registered id, ∀ first second,
        registered[a]? = some first → registered[b]? = some second →
        first.signal ≠ second.signal := by
      intro a old b new first second foundFirst foundSecond same
      obtain ⟨r, found, fired⟩ := (h.free a).mp old
      obtain ⟨q, other, rfl⟩ := numbersMember.mp new
      cases foundFirst.symm.trans found
      cases foundSecond.symm.trans other
      simp [same, closed] at fired
    have free : freed signals registered id = numbers registered id := by simp [freed, closed]
    rw [free]
    refine ⟨?_, ?_, ?_, ?_, ?_, ?_⟩
    · rw [Signals.longFire]
      exact h.known
    · intro other state found unfired
      rw [after] at found
      split at found
      · cases found
        contradiction
      · exact h.waits other state found unfired
    · intro other state found fired
      rw [after] at found
      split at found
      · cases found
        rfl
      · exact h.spent other state found fired
    · refine pairwiseBetween h.once ((numbersAscend registered id).imp Nat.ne_of_lt) ?_
      intro a old b new
      obtain ⟨r, found, -⟩ := (h.free a).mp old
      suffices a ≠ b from ⟨this, this.symm⟩
      rintro rfl
      exact apart a old a new r r found found rfl
    · intro n
      have place : n ∈ front ++ numbers registered id ++ back ↔
          n ∈ numbers registered id ∨ n ∈ front ++ back := by
        simp only [List.mem_append, or_assoc, or_left_comm]
      rw [place, h.free, numbersMember]
      simp only [Signals.firedFire known, Bool.or_eq_true, decide_eq_true_eq]
      constructor
      · rintro (⟨r, found, same⟩ | ⟨r, found, fired⟩)
        · exact ⟨r, found, .inl same⟩
        · exact ⟨r, found, .inr fired⟩
      · rintro ⟨r, found, same | fired⟩
        · exact .inl ⟨r, found, same⟩
        · exact .inr ⟨r, found, fired⟩
    · refine pairwiseBetween h.inTurn ((numbersAscend registered id).imp ?_) ?_
      · exact fun less _ _ _ _ _ _ _ => less
      · intro a old b new
        constructor
        · exact fun first second one two _ _ same => (apart a old b new first second one two same).elim
        · exact fun first second one two _ _ same =>
            (apart a old b new second first two one same.symm).elim
  · rw [freedNothing h fresh, fireNothing fresh, List.append_nil]
    exact h

theorem orderKnown {order : List Nat} (h : Tally signals registered order) {n : Nat}
    (mem : n ∈ order) : n < registered.length := by
  obtain ⟨r, found, -⟩ := (h.free n).mp mem
  exact (List.getElem?_eq_some_iff.mp found).1

theorem inTurnAdded {order : List Nat} (h : Tally signals registered order) (r : Registration ν) :
    order.Pairwise (InTurn (registered ++ [r])) := by
  refine h.inTurn.imp_of_mem fun {a b} first second turn => ?_
  unfold InTurn
  rw [earlierFound _ _ (orderKnown h first), earlierFound _ _ (orderKnown h second)]
  exact turn

theorem tallyQueue {order : List Nat} (h : Tally signals registered order) {id : SignalId}
    (known : id.index < signals.all.length) (unfired : signals.isFired id = false)
    (callback : Callback ν) :
    Tally (signals.queue id callback) (registered ++ [⟨id, callback, true⟩]) order := by
  refine ⟨?_, ?_, ?_, h.once, ?_, inTurnAdded h _⟩
  · rw [Signals.longQueue]
    exact eachAdded h.known known
  · intro other state found waiting
    rw [Signals.getQueue unfired] at found
    split at found
    · rename_i same
      subst same
      obtain ⟨before, there, rfl⟩ := Option.map_eq_some_iff.mp found
      rw [callbacksAdd, if_pos rfl, ← h.waits other before there waiting]
      simp
    · rename_i different
      rw [callbacksAdd, if_neg (Ne.symm different), List.append_nil]
      exact h.waits other state found waiting
  · intro other state found fired
    rw [Signals.getQueue unfired] at found
    split at found
    · obtain ⟨before, there, rfl⟩ := Option.map_eq_some_iff.mp found
      rw [Signals.firedState there] at unfired
      simp [unfired] at fired
    · exact h.spent other state found fired
  · intro n
    simp only [Signals.firedQueue]
    rw [h.free]
    constructor
    · rintro ⟨r, found, fired⟩
      exact ⟨r, foundAdded.mpr (.inl found), fired⟩
    · rintro ⟨r, found, fired⟩
      rcases foundAdded.mp found with before | ⟨-, rfl⟩
      · exact ⟨r, before, fired⟩
      · simp [unfired] at fired

theorem tallyAtOnce {front back : List Nat} (h : Tally signals registered (front ++ back))
    {id : SignalId} (known : id.index < signals.all.length) (fired : signals.isFired id = true)
    (callback : Callback ν) :
    Tally signals (registered ++ [⟨id, callback, false⟩])
      (front ++ [registered.length] ++ back) := by
  have new : (registered ++ [⟨id, callback, false⟩])[registered.length]? =
      some ⟨id, callback, false⟩ := foundAdded.mpr (.inr ⟨rfl, rfl⟩)
  refine ⟨eachAdded h.known known, ?_, h.spent, ?_, ?_, ?_⟩
  · intro other state found unfired
    rw [callbacksAdd, if_neg, List.append_nil]
    · exact h.waits other state found unfired
    · rintro rfl
      simp [Signals.firedState found, unfired] at fired
  · refine pairwiseBetween h.once (List.pairwise_singleton _ _) fun a old b mem => ?_
    rw [List.mem_singleton.mp mem]
    have less := orderKnown h old
    exact ⟨Nat.ne_of_lt less, Nat.ne_of_gt less⟩
  · intro n
    have place : n ∈ front ++ [registered.length] ++ back ↔
        n ∈ front ++ back ∨ n = registered.length := by
      simp only [List.mem_append, List.mem_singleton, or_assoc, or_comm]
    rw [place, h.free]
    constructor
    · rintro (⟨r, found, fired⟩ | rfl)
      · exact ⟨r, foundAdded.mpr (.inl found), fired⟩
      · exact ⟨_, new, fired⟩
    · rintro ⟨r, found, fired⟩
      rcases foundAdded.mp found with before | ⟨same, -⟩
      · exact .inl ⟨r, before, fired⟩
      · exact .inr same
  · refine pairwiseBetween (inTurnAdded h _) (List.pairwise_singleton _ _) fun a _ b mem => ?_
    rw [List.mem_singleton.mp mem]
    constructor
    · intro first second _ found _ queued
      cases new.symm.trans found
      contradiction
    · intro first second found _ queued
      cases new.symm.trans found
      contradiction

theorem freedCallbacks {order : List Nat} (h : Tally signals registered order) (id : SignalId) :
    ((signals.fire id).1.getD []).map some =
      (freed signals registered id).map fun n => registered[n]?.map Registration.callback := by
  by_cases fresh : ∃ signal, signals.get? id = some signal ∧ signal.fired = false
  · obtain ⟨signal, there, unfired⟩ := fresh
    have closed : signals.isFired id = false := (Signals.firedState there).trans unfired
    rw [(Signals.fireFirst there unfired).1]
    simpa [freed, closed, callbacks] using h.waits id signal there unfired
  · rw [freedNothing h fresh, fireNothing fresh]
    rfl

end Changes
end Registration
end ConsoleShell
