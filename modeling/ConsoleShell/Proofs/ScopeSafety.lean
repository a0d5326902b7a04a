import ConsoleShell.Proofs.Basic
import ConsoleShell.Proofs.Dict
import ConsoleShell.Proofs.Signals
import ConsoleShell.Scope

/-! Scopes are safe however callbacks call back. A scope takes its place before the signal of the one
that it replaces fires, so what runs then may already begin, cancel and register again; everything
said here holds between any two small steps of such a cascade, and not only when it is over. -/
namespace ConsoleShell.ScopeSafety
open Signals (Grown grownCreate grownFire grownQueue firedAfter)

variable {ν : Type}

/- The scopes at one moment with what callbacks have still to do. Who was given which scope, in this
order, and which scopes were released under their own number, is kept for the reasoning alone. -/
structure World (ν : Type) where
  scopes : Scopes ν := .empty
  duties : List (Duty ν) := []
  begun : List (SessionId × Scope) := []
  released : List (SessionId × ScopeId) := []

def begins (c : Cascade ν) : List (SessionId × Scope) :=
  match c.duties with
  | .run (.begin session _ _) :: _ => [(session, (c.scopes.replace session).1)]
  | _ => []

/- What can happen next. A call may come from outside or from a callback that is running, so it puts
what it sets free before everything that was to be done already. -/
inductive Move : World ν → World ν → Prop where
  | begin (w session) : Move w { w with
      scopes := (w.scopes.replace session).2.2
      duties := (w.scopes.replace session).2.1 ++ w.duties
      begun := w.begun ++ [(session, (w.scopes.replace session).1)] }
  | cancel (w session) : Move w { w with
      scopes := (w.scopes.interrupt session).2.2
      duties := (w.scopes.interrupt session).2.1 ++ w.duties }
  | finish (w session id) : Move w { w with
      scopes := (w.scopes.finish session id).2
      released := w.released ++ if (w.scopes.finish session id).1 then [(session, id)] else [] }
  | discard (w session) {scope} (found : w.scopes.live.get? session = some scope) : Move w { w with
      scopes := ({ w.scopes with live := w.scopes.live.erase session }.fire scope.signal).2.2
      duties := ({ w.scopes with live := w.scopes.live.erase session }.fire scope.signal).2.1 ++ w.duties }
  | fire (w signal) : Move w { w with
      scopes := (w.scopes.fire signal).2.2
      duties := (w.scopes.fire signal).2.1 ++ w.duties }
  | register (w signal callback) : Move w { w with
      scopes := (w.scopes.enlist signal callback).2
      duties := (w.scopes.enlist signal callback).1 ++ w.duties }
  | signal (w) : Move w { w with scopes := { w.scopes with signals := w.scopes.signals.create.2 } }
  | callback (w notes) : Move w { w with
      scopes := (Cascade.step ⟨w.scopes, w.duties, notes⟩).scopes
      duties := (Cascade.step ⟨w.scopes, w.duties, notes⟩).duties
      begun := w.begun ++ begins ⟨w.scopes, w.duties, notes⟩ }

inductive Reaches : World ν → Prop where
  | start : Reaches {}
  | move {w v} (before : Reaches w) (next : Move w v) : Reaches v

def Accounted (s : Scopes ν) (released : List (SessionId × ScopeId)) (e : SessionId × Scope) : Prop :=
  s.live.get? e.1 = some e.2 ∨ (e.1, e.2.id) ∈ released ∨ s.signals.isFired e.2.signal = true

structure Safe (s : Scopes ν) (begun : List (SessionId × Scope))
    (released : List (SessionId × ScopeId)) : Prop where
  sorted : s.live.Sorted
  ordered : begun.Pairwise fun a b => a.2.id.number < b.2.id.number
  counted : ∀ e ∈ begun, e.2.id.number ≤ s.lastId
  known : ∀ e ∈ begun, e.2.signal.index < s.signals.all.length
  given : ∀ session scope, s.live.get? session = some scope → (session, scope) ∈ begun
  latest : ∀ session scope, s.live.get? session = some scope →
    ∀ other, (session, other) ∈ begun → other.id.number ≤ scope.id.number
  accounted : ∀ e ∈ begun, Accounted s released e

theorem firedScopes (s : Scopes ν) (signal : SignalId) :
    (s.fire signal).2.2 = { s with signals := (s.signals.fire signal).2 } := by
  unfold Scopes.fire Signals.fire
  cases s.signals.get? signal with
  | none => rfl
  | some state => by_cases fired : state.fired = true <;> simp [fired]

theorem sessionTrans (a b c : SessionId) (first : a < b) (second : b < c) : a < c :=
  Nat.lt_trans first second

theorem sessionTotal (a b : SessionId) (other : a ≠ b) (after : ¬ a < b) : b < a := by
  have numbers : a.number ≠ b.number := fun same => other (by cases a; cases b; simp_all)
  exact Nat.lt_of_le_of_ne (Nat.le_of_not_lt after) numbers.symm

section Steps

variable {s : Scopes ν} {begun : List (SessionId × Scope)} {released : List (SessionId × ScopeId)}
variable (h : Safe s begun released)

include h

theorem safeSignals {signals : Signals (Callback ν)} (grown : Grown s.signals signals) :
    Safe { s with signals } begun released where
  sorted := h.sorted
  ordered := h.ordered
  counted := h.counted
  known e mem := Nat.lt_of_lt_of_le (h.known e mem) grown.long
  given := h.given
  latest := h.latest
  accounted e mem := (h.accounted e mem).imp_right fun ended => ended.imp_right (grown.fired _)

theorem safeFire (signal : SignalId) : Safe (s.fire signal).2.2 begun released := by
  rw [firedScopes]
  exact safeSignals h (grownFire s.signals signal)

theorem safeInterrupt (session : SessionId) :
    Safe (s.interrupt session).2.2 begun released := by
  unfold Scopes.interrupt
  split
  · exact h
  · rename_i scope _
    have fired := safeFire h scope.signal
    split <;>
    · rename_i same
      rw [same] at fired
      exact fired

theorem safeEnlist (signal : SignalId) (callback : Callback ν) :
    Safe (s.enlist signal callback).2 begun released := by
  unfold Scopes.enlist
  split
  · exact h
  · exact safeSignals h (grownQueue _ _ _)

theorem safeTaken {t : Scopes ν} {session : SessionId} {scope : Scope}
    (live : t.live = s.live.insert session scope) (number : scope.id = ⟨s.lastId + 1⟩)
    (count : t.lastId = s.lastId + 1) (grown : Grown s.signals t.signals)
    (fresh : scope.signal.index < t.signals.all.length)
    (retired : ∀ previous, s.live.get? session = some previous →
      t.signals.isFired previous.signal = true) :
    Safe t (begun ++ [(session, scope)]) released where
  sorted := by
    rw [live]
    exact Dict.sortedInsert sessionTrans sessionTotal h.sorted session scope
  ordered := by
    refine List.pairwise_append.mpr ⟨h.ordered, List.pairwise_singleton _ _, ?_⟩
    intro e mem last new
    rw [List.mem_singleton.mp new, number]
    exact Nat.lt_succ_of_le (h.counted e mem)
  counted := by
    refine eachAdded (fun e mem => ?_) ?_
    · rw [count]
      exact Nat.le_succ_of_le (h.counted e mem)
    · simp [number, count]
  known := eachAdded (fun e mem => Nat.lt_of_lt_of_le (h.known e mem) grown.long) fresh
  given other found stored := by
    rw [live, Dict.getInsert] at stored
    split at stored
    · rename_i same
      cases stored
      simp [same]
    · exact List.mem_append_left _ (h.given other found stored)
  latest other found stored := by
    rw [live, Dict.getInsert] at stored
    split at stored
    · cases stored
      intro earlier mem
      rcases List.mem_append.mp mem with before | new
      · rw [number]
        exact Nat.le_succ_of_le (h.counted _ before)
      · simp_all
    · rename_i different
      intro earlier mem
      rcases List.mem_append.mp mem with before | new
      · exact h.latest other found stored earlier before
      · simp_all
  accounted := by
    refine eachAdded (fun e mem => ?_) (.inl ?_)
    · rcases h.accounted e mem with isLive | left | fired
      · by_cases same : e.1 = session
        · exact .inr (.inr (retired e.2 (same ▸ isLive)))
        · exact .inl (by rw [live, Dict.getInsert, if_neg same, isLive])
      · exact .inr (.inl left)
      · exact .inr (.inr (grown.fired _ fired))
    · rw [live, Dict.getInsert, if_pos rfl]

theorem safeReplace (session : SessionId) :
    Safe (s.replace session).2.2 (begun ++ [(session, (s.replace session).1)]) released := by
  have grown := grownCreate s.signals
  have fresh : s.signals.all.length < s.signals.create.2.all.length := by simp [Signals.create]
  unfold Scopes.replace
  dsimp only
  split
  · rename_i missing
    exact safeTaken h rfl rfl rfl grown fresh fun previous found => by simp [missing] at found
  · rename_i previous found
    have known := Nat.lt_of_lt_of_le (h.known _ (h.given _ _ found)) grown.long
    have further := grownFire s.signals.create.2 previous.signal
    rw [firedScopes]
    refine safeTaken h rfl rfl rfl (grown.trans further) ?_ fun other stored => ?_
    · exact Nat.lt_of_lt_of_le fresh further.long
    · cases found.symm.trans stored
      exact firedAfter known

theorem safeGone {t : Scopes ν} {session : SessionId} {later : List (SessionId × ScopeId)}
    (live : t.live = s.live.erase session) (count : t.lastId = s.lastId)
    (grown : Grown s.signals t.signals)
    (ended : ∀ scope, s.live.get? session = some scope →
      (session, scope.id) ∈ later ∨ t.signals.isFired scope.signal = true) :
    Safe t begun (released ++ later) := by
  have still {other : SessionId} {scope : Scope} (stored : t.live.get? other = some scope) :
      s.live.get? other = some scope := by
    rw [live, Dict.getErase] at stored
    split at stored
    · contradiction
    · exact stored
  refine ⟨?_, h.ordered, ?_, ?_, ?_, ?_, ?_⟩
  · rw [live]
    exact Dict.sortedErase h.sorted session
  · exact count.symm ▸ h.counted
  · exact fun e mem => Nat.lt_of_lt_of_le (h.known e mem) grown.long
  · exact fun other scope stored => h.given other scope (still stored)
  · exact fun other scope stored => h.latest other scope (still stored)
  · intro e mem
    rcases h.accounted e mem with isLive | left | fired
    · by_cases same : e.1 = session
      · rcases ended e.2 (same ▸ isLive) with left | fired
        · exact .inr (.inl (List.mem_append_right _ (same ▸ left)))
        · exact .inr (.inr fired)
      · exact .inl (by rw [live, Dict.getErase, if_neg same, isLive])
    · exact .inr (.inl (List.mem_append_left _ left))
    · exact .inr (.inr (grown.fired _ fired))

theorem safeFinish (session : SessionId) (id : ScopeId) :
    Safe (s.finish session id).2 begun
      (released ++ if (s.finish session id).1 then [(session, id)] else []) := by
  unfold Scopes.finish
  split
  · rename_i own
    refine safeGone h rfl rfl (Grown.refl _) fun scope found => .inl ?_
    rw [found] at own
    simp_all
  · simpa using h

theorem safeDiscard {session : SessionId} {scope : Scope}
    (found : s.live.get? session = some scope) :
    Safe ({ s with live := s.live.erase session }.fire scope.signal).2.2 begun released := by
  rw [firedScopes, ← List.append_nil released]
  refine safeGone h rfl rfl (grownFire s.signals scope.signal) fun other stored => .inr ?_
  cases found.symm.trans stored
  exact firedAfter (h.known _ (h.given _ _ found))

theorem safeCallback (duties : List (Duty ν)) (notes : List (Note ν)) :
    Safe (Cascade.step ⟨s, duties, notes⟩).scopes (begun ++ begins ⟨s, duties, notes⟩) released := by
  match duties with
  | [] | .report _ :: _ | .run .done :: _ | .run (.note _ _) :: _ =>
    simpa [Cascade.step, begins] using h
  | .run (.register signal inner next) :: rest =>
    simpa [Cascade.step, begins] using safeEnlist h signal inner
  | .run (.cancel session label next) :: rest =>
    simpa [Cascade.step, begins] using safeInterrupt h session
  | .run (.begin session label next) :: rest =>
    simpa [Cascade.step, begins] using safeReplace h session

end Steps

theorem safeMove {w v : World ν} (h : Safe w.scopes w.begun w.released) (move : Move w v) :
    Safe v.scopes v.begun v.released := by
  cases move with
  | begin session => exact safeReplace h session
  | cancel session => exact safeInterrupt h session
  | finish session id => exact safeFinish h session id
  | discard session found => exact safeDiscard h found
  | fire signal => exact safeFire h signal
  | register signal callback => exact safeEnlist h signal callback
  | signal => exact safeSignals h (grownCreate _)
  | callback notes => exact safeCallback h w.duties notes

theorem safeReaches {w : World ν} (h : Reaches w) : Safe w.scopes w.begun w.released := by
  induction h with
  | start =>
    have empty (session : SessionId) : (Scopes.empty : Scopes ν).live.get? session = none := rfl
    refine ⟨List.Pairwise.nil, List.Pairwise.nil, ?_, ?_, ?_, ?_, ?_⟩ <;> simp [empty]
  | move _ next ih => exact safeMove ih next

inductive Call (ν : Type) where
  | begin (session : SessionId)
  | cancel (session : SessionId)
  | finish (session : SessionId) (id : ScopeId)
  | discard (session : SessionId)
  | fire (signal : SignalId)
  | register (signal : SignalId) (callback : Callback ν)

def Call.run : Call ν → Scopes ν → Scopes ν
  | begin session, s => (s.begin session).2.2
  | cancel session, s => (s.cancel session).2.2
  | finish session id, s => (s.finish session id).2
  | discard session, s => (s.discard session).2
  | fire signal, s => (s.trigger signal).2.2
  | register signal callback, s => (s.onCancel signal callback).2

theorem stepBefore (s : Scopes ν) (first : Duty ν) (duties later : List (Duty ν))
    (notes : List (Note ν)) :
    let c := Cascade.step ⟨s, first :: duties, notes⟩
    Cascade.step ⟨s, first :: duties ++ later, notes⟩ = ⟨c.scopes, c.duties ++ later, c.notes⟩ := by
  match first with
  | .report _ | .run .done | .run (.note _ _) => rfl
  | .run (.register _ _ _) | .run (.cancel _ _ _) | .run (.begin _ _ _) => simp [Cascade.step]

/- A cascade that was set off in a world runs in it, before whatever was to be done there already. -/
theorem cascadeReaches (n : Nat) (c : Cascade ν) (later : List (Duty ν)) {w : World ν}
    (h : Reaches w) (scopes : w.scopes = c.scopes) (duties : w.duties = c.duties ++ later) :
    ∃ v, Reaches v ∧ v.scopes = (c.steps n).scopes := by
  induction n generalizing c w with
  | zero => exact ⟨w, h, scopes⟩
  | succ n ih =>
    obtain ⟨s, todo, notes⟩ := c
    cases todo with
    | nil => exact ih ⟨s, [], notes⟩ h scopes duties
    | cons first rest =>
      have step := stepBefore s first rest later notes
      have scopesAfter := congrArg Cascade.scopes step
      have dutiesAfter := congrArg Cascade.duties step
      refine ih (Cascade.step ⟨s, first :: rest, notes⟩) (.move h (.callback w notes)) ?_ ?_
      · rw [scopes, duties]
        exact scopesAfter
      · rw [scopes, duties]
        exact dutiesAfter

theorem runReaches {w : World ν} {s : Scopes ν} {set later : List (Duty ν)} (h : Reaches w)
    (scopes : w.scopes = s) (duties : w.duties = set ++ later) :
    ∃ v, Reaches v ∧ v.scopes = (Cascade.run s set).2 :=
  cascadeReaches _ ⟨s, set, []⟩ later h scopes duties

theorem callReaches {w : World ν} (h : Reaches w) (call : Call ν) :
    ∃ v, Reaches v ∧ v.scopes = call.run w.scopes := by
  cases call with
  | begin session => exact runReaches (.move h (.begin w session)) rfl rfl
  | cancel session => exact runReaches (.move h (.cancel w session)) rfl rfl
  | finish session id => exact ⟨_, .move h (.finish w session id), rfl⟩
  | discard session =>
    show ∃ v, Reaches v ∧ v.scopes = (w.scopes.discard session).2
    unfold Scopes.discard
    split
    · exact ⟨w, h, rfl⟩
    · rename_i found
      exact runReaches (.move h (.discard w session found)) rfl rfl
  | fire signal => exact runReaches (.move h (.fire w signal)) rfl rfl
  | register signal callback =>
    exact runReaches (.move h (.register w signal callback)) rfl rfl

theorem callsReach (calls : List (Call ν)) :
    ∃ w, Reaches w ∧ w.scopes = calls.foldl (fun s call => call.run s) .empty := by
  suffices run : ∀ w : World ν, Reaches w →
      ∃ v, Reaches v ∧ v.scopes = calls.foldl (fun s call => call.run s) w.scopes from
    run {} .start
  induction calls with
  | nil => exact fun w h => ⟨w, h, rfl⟩
  | cons call rest ih =>
    intro w h
    obtain ⟨v, reached, same⟩ := callReaches h call
    rw [List.foldl_cons, ← same]
    exact ih v reached

theorem finishOther {s : Scopes ν} {session : SessionId} {id : ScopeId}
    (other : ∀ scope, s.live.get? session = some scope → scope.id ≠ id) :
    s.finish session id = (false, s) := by
  unfold Scopes.finish
  rw [if_neg]
  cases found : s.live.get? session with
  | none => simp
  | some scope => simpa using other scope found

theorem sameNumber {begun : List (SessionId × Scope)}
    (ordered : begun.Pairwise fun a b => a.2.id.number < b.2.id.number) {a b : SessionId × Scope}
    (left : a ∈ begun) (right : b ∈ begun) (same : a.2.id = b.2.id) : a = b := by
  induction ordered with
  | nil => contradiction
  | cons first later ih =>
    rcases List.mem_cons.mp left with rfl | leftLater
    · rcases List.mem_cons.mp right with rfl | rightLater
      · rfl
      · exact absurd (first b rightLater) (by simp [same])
    · rcases List.mem_cons.mp right with rfl | rightLater
      · exact absurd (first a leftLater) (by simp [same])
      · exact ih leftLater rightLater

def Unended (w : World ν) (session : SessionId) (scope : Scope) : Prop :=
  (session, scope.id) ∉ w.released ∧ w.scopes.signals.isFired scope.signal = false

theorem unendedLive {w : World ν} (h : Reaches w) {session : SessionId} {scope : Scope}
    (begun : (session, scope) ∈ w.begun) (unended : Unended w session scope) :
    w.scopes.live.get? session = some scope := by
  rcases (safeReaches h).accounted _ begun with isLive | left | fired
  · exact isLive
  · exact absurd left unended.1
  · simp [unended.2] at fired

structure WellScoped (w : World ν) : Prop where
  oneLive : w.scopes.live.keys.Nodup
  liveBegun : ∀ session scope, w.scopes.live.get? session = some scope → (session, scope) ∈ w.begun
  oneUnended : ∀ session a b, (session, a) ∈ w.begun → (session, b) ∈ w.begun →
    Unended w session a → Unended w session b → a = b
  increasing : w.begun.Pairwise fun a b => a.2.id.number < b.2.id.number
  accounted : ∀ e ∈ w.begun, Accounted w.scopes w.released e
  finishOther : ∀ session id,
    (∀ scope, w.scopes.live.get? session = some scope → scope.id ≠ id) →
    w.scopes.finish session id = (false, w.scopes)
  finishForeign : ∀ session other scope, (other, scope) ∈ w.begun → other ≠ session →
    w.scopes.finish session scope.id = (false, w.scopes)
  finishStale : ∀ session old new, (session, old) ∈ w.begun → (session, new) ∈ w.begun →
    old.id.number < new.id.number → w.scopes.finish session old.id = (false, w.scopes)

theorem scopesSafe {w : World ν} (h : Reaches w) : WellScoped w := by
  have safe := safeReaches h
  refine ⟨?_, safe.given, ?_, safe.ordered, safe.accounted, fun _ _ => finishOther, ?_, ?_⟩
  · exact Dict.sortedKeys safe.sorted fun a => Nat.lt_irrefl a.number
  · intro session a b left right openLeft openRight
    exact Option.some.inj ((unendedLive h left openLeft).symm.trans (unendedLive h right openRight))
  · intro session other scope begun foreign
    refine finishOther fun x found same => foreign ?_
    have one := sameNumber safe.ordered begun (safe.given session x found) same.symm
    exact congrArg Prod.fst one
  · intro session old new begunOld begunNew older
    refine finishOther fun x found same => ?_
    have last := safe.latest session x found new begunNew
    rw [same] at last
    exact Nat.lt_irrefl _ (Nat.lt_of_lt_of_le older last)

def reentrant : World Unit where
  scopes := ⟨⟨[⟨true, []⟩, ⟨true, []⟩, ⟨false, []⟩]⟩, ⟨[(⟨0⟩, ⟨⟨3⟩, ⟨2⟩⟩)]⟩, 3⟩
  duties := [.report (.began () ⟨3⟩), .run .done]
  begun := [(⟨0⟩, ⟨⟨1⟩, ⟨0⟩⟩), (⟨0⟩, ⟨⟨2⟩, ⟨1⟩⟩), (⟨0⟩, ⟨⟨3⟩, ⟨2⟩⟩)]

theorem reentrantReaches : Reaches reentrant :=
  .move (.move (.move (.move .start (.begin _ ⟨0⟩)) (.register _ ⟨0⟩ (.begin ⟨0⟩ () .done)))
    (.begin _ ⟨0⟩)) (.callback _ [])

theorem scopesSafeReentrant : Reaches reentrant ∧ WellScoped reentrant :=
  ⟨reentrantReaches, scopesSafe reentrantReaches⟩

end ConsoleShell.ScopeSafety
