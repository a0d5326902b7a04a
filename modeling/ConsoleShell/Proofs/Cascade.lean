import ConsoleShell.Proofs.ScopeSafety

/-! Every cascade comes to its end. A small step uses up some of the weight of what is to be done and
of what waits on signals: it may set callbacks free, but these were counted where they waited. -/
namespace ConsoleShell
open ScopeSafety (firedScopes)

variable {ν : Type}

theorem totalSet {α : Type} (f : α → Nat) {items : List α} {i : Nat} {a : α}
    (found : items[i]? = some a) (b : α) :
    total ((items.set i b).map f) + f a = total (items.map f) + f b := by
  induction items generalizing i with
  | nil => simp at found
  | cons first rest ih =>
    cases i with
    | zero =>
      cases Option.some.inj found
      simp only [List.set_cons_zero, List.map_cons, total]
      omega
    | succ i =>
      have later := ih (i := i) found
      simp only [List.set_cons_succ, List.map_cons, total]
      omega

theorem totalModify {α : Type} (f : α → Nat) {change : α → α} {added : Nat}
    (grows : ∀ a, f (change a) ≤ added + f a) (items : List α) (i : Nat) :
    total ((items.modify i change).map f) ≤ added + total (items.map f) := by
  induction items generalizing i with
  | nil => simp
  | cons first rest ih =>
    cases i with
    | zero =>
      have more := grows first
      simp only [List.modify_zero_cons, List.map_cons, total]
      omega
    | succ i =>
      have later := ih i
      simp only [List.modify_succ_cons, List.map_cons, total]
      omega

namespace Scopes

def heft (signal : Signal (Callback ν)) : Nat := total (signal.waiting.map Callback.weight)

theorem weightCreate (s : Scopes ν) (live : Dict SessionId Scope) (lastId : Nat) :
    Scopes.weight ⟨s.signals.create.2, live, lastId⟩ = s.weight := by
  simp [Scopes.weight, Signals.create, total, totalAppend]

theorem weightFire (s : Scopes ν) (signal : SignalId) :
    total ((s.fire signal).2.1.map Duty.weight) + (s.fire signal).2.2.weight = s.weight := by
  unfold Scopes.fire Signals.fire
  cases found : s.signals.get? signal with
  | none => simp [total]
  | some state =>
    by_cases spent : state.fired = true
    · simp [spent, total]
    · have moved := totalSet heft found { fired := true }
      have same : Duty.weight ∘ Duty.run = (Callback.weight : Callback ν → Nat) := rfl
      simp only [spent, Bool.false_eq_true, if_false, List.map_map, same]
      exact (Nat.add_comm _ _).trans moved

theorem weightEnlist (s : Scopes ν) (signal : SignalId) (callback : Callback ν) :
    total ((s.enlist signal callback).1.map Duty.weight) + (s.enlist signal callback).2.weight ≤
      callback.weight + s.weight := by
  unfold Scopes.enlist
  split
  · simp [total, Duty.weight]
  · have grows (state : Signal (Callback ν)) :
        heft (if state.fired then state else { state with waiting := state.waiting ++ [callback] }) ≤
          callback.weight + heft state := by
      split
      · omega
      · simp only [heft, List.map_append, totalAppend, List.map_cons, List.map_nil, total]
        omega
    have queued := totalModify heft grows s.signals.all signal.index
    simp only [List.map_nil, total, Nat.zero_add]
    exact queued

theorem weightReplace (s : Scopes ν) (session : SessionId) :
    total ((s.replace session).2.1.map Duty.weight) + (s.replace session).2.2.weight = s.weight := by
  unfold Scopes.replace
  dsimp only
  split
  · simpa [total] using weightCreate s _ _
  · rw [weightFire]
    exact weightCreate s _ _

theorem weightInterrupt (s : Scopes ν) (session : SessionId) :
    total ((s.interrupt session).2.1.map Duty.weight) + (s.interrupt session).2.2.weight =
      s.weight := by
  unfold Scopes.interrupt
  split
  · simp [total]
  · rename_i scope _
    have fired := weightFire s scope.signal
    split <;>
    · rename_i same
      rw [same] at fired
      exact fired

end Scopes

namespace Cascade

theorem stepLighter {c : Cascade ν} (busy : c.duties ≠ []) : c.step.weight < c.weight := by
  obtain ⟨s, duties, notes⟩ := c
  cases duties with
  | nil => contradiction
  | cons first rest =>
    match first with
    | .report note | .run .done | .run (.note label next) =>
      simp only [Cascade.step, Cascade.weight, List.map_cons, total, Duty.weight,
        Callback.weight]
      omega
    | .run (.register signal inner next) =>
      have moved := s.weightEnlist signal inner
      simp only [Cascade.step, Cascade.weight, List.map_cons, List.map_append, total,
        totalAppend, Duty.weight, Callback.weight]
      omega
    | .run (.cancel session label next) =>
      have moved := s.weightInterrupt session
      rcases same : s.interrupt session with ⟨outcome, free, after⟩
      simp only [Cascade.step, Cascade.weight, same, List.map_cons, List.map_append, total,
        totalAppend, Duty.weight, Callback.weight] at moved ⊢
      omega
    | .run (.begin session label next) =>
      have moved := s.weightReplace session
      rcases same : s.replace session with ⟨scope, free, after⟩
      simp only [Cascade.step, Cascade.weight, same, List.map_cons, List.map_append, total,
        totalAppend, Duty.weight, Callback.weight] at moved ⊢
      omega

theorem stepsOver {c : Cascade ν} (idle : c.duties = []) (n : Nat) : c.steps n = c := by
  have still : c.step = c := by simp [Cascade.step, idle]
  induction n with
  | zero => rfl
  | succ n ih =>
    rw [Cascade.steps, still]
    exact ih

theorem stepsEnd {c : Cascade ν} {n : Nat} (enough : c.weight ≤ n) : (c.steps n).duties = [] := by
  induction n generalizing c with
  | zero =>
    by_cases idle : c.duties = []
    · exact idle
    · have lighter := stepLighter idle
      omega
  | succ n ih =>
    by_cases idle : c.duties = []
    · rw [stepsOver idle]
      exact idle
    · have lighter := stepLighter idle
      exact ih (by omega)

theorem settled (c : Cascade ν) : c.settle.duties = [] := stepsEnd (Nat.le_refl _)

end Cascade
end ConsoleShell
