import ConsoleShell.Proofs.Foreground
import ConsoleShell.Proofs.TaskTurns

/-! Whose scope is whose. The signals of scopes are numbered across all sessions, but no two live scopes have
the same one, so what is done to the scope of one session leaves those of the others as they are, with
their signals and all that waits on them. -/
namespace ConsoleShell.ScopeTokens
open ScopeSafety Captured Foreground
open Confinement (session?)
open Shell (Sound)

section Signals

variable {κ : Type} (s : Signals κ)

theorem getFire {id other : SignalId} (apart : other ≠ id) : (s.fire id).2.get? other = s.get? other := by
  unfold Signals.fire
  split
  · rfl
  · split
    · rfl
    · exact List.getElem?_set_ne fun same => apart (Signals.sameSignal.mp same).symm

theorem getOld {id : SignalId} (known : id.index < s.all.length) : s.create.2.get? id = s.get? id := by
  rw [Signals.getCreate, if_neg]
  rintro rfl
  exact Nat.lt_irrefl _ known

end Signals

variable {ν : Type} {s : Scopes ν} {session other : SessionId}

/- Live scopes have signals that there are, and no two of them the same. -/
structure Apart (s : Scopes ν) : Prop where
  known : ∀ session scope, s.live.get? session = some scope → scope.signal.index < s.signals.all.length
  apart : ∀ a b first second, s.live.get? a = some first → s.live.get? b = some second →
    first.signal = second.signal → a = b

structure Elsewhere (session : SessionId) (s t : Scopes ν) : Prop where
  live : ∀ other, other ≠ session → t.live.get? other = s.live.get? other
  signals : ∀ other scope, other ≠ session → s.live.get? other = some scope →
    t.signals.get? scope.signal = s.signals.get? scope.signal
  grown : Signals.Grown s.signals t.signals

theorem Elsewhere.refl (s : Scopes ν) : Elsewhere session s s :=
  ⟨fun _ _ => rfl, fun _ _ _ _ => rfl, .refl _⟩

theorem Elsewhere.trans {t u : Scopes ν} (first : Elsewhere session s t)
    (second : Elsewhere session t u) : Elsewhere session s u where
  live other apart := (second.live other apart).trans (first.live other apart)
  signals other scope apart found :=
    (second.signals other scope apart ((first.live other apart).trans found)).trans
      (first.signals other scope apart found)
  grown := first.grown.trans second.grown

def Foreign (s : Scopes ν) (session : SessionId) (signal : SignalId) : Prop :=
  ∀ other scope, other ≠ session → s.live.get? other = some scope → scope.signal ≠ signal

theorem Apart.foreign (h : Apart s) {scope : Scope} (found : s.live.get? session = some scope) :
    Foreign s session scope.signal :=
  fun _ _ apart there same => apart (h.apart _ _ _ _ there found same)

theorem elsewhereFire {signal : SignalId} (foreign : Foreign s session signal) :
    Elsewhere session s { s with signals := (s.signals.fire signal).2 } where
  live _ _ := rfl
  signals other scope apart there := getFire _ (foreign other scope apart there)
  grown := Signals.grownFire _ _

theorem apartFire (h : Apart s) (signal : SignalId) :
    Apart { s with signals := (s.signals.fire signal).2 } :=
  ⟨fun session scope found => (Signals.longFire s.signals signal).symm ▸ h.known session scope found,
    h.apart⟩

theorem elsewhereErase (s : Scopes ν) (session : SessionId) :
    Elsewhere session s { s with live := s.live.erase session } := by
  refine ⟨fun other apart => ?_, fun _ _ _ _ => rfl, .refl _⟩
  change (s.live.erase session).get? other = s.live.get? other
  rw [Dict.getErase, if_neg apart]

theorem apartErase (h : Apart s) (session : SessionId) :
    Apart { s with live := s.live.erase session } := by
  have still {other : SessionId} {scope : Scope}
      (there : (s.live.erase session).get? other = some scope) : s.live.get? other = some scope := by
    rw [Dict.getErase] at there
    split at there
    · contradiction
    · exact there
  exact ⟨fun session scope found => h.known session scope (still found),
    fun a b first second left right => h.apart a b first second (still left) (still right)⟩

theorem elsewhereInterrupt (h : Apart s) (session : SessionId) :
    Elsewhere session s (s.interrupt session).2.2 ∧ Apart (s.interrupt session).2.2 := by
  unfold Scopes.interrupt
  split
  · exact ⟨.refl s, h⟩
  · rename_i scope found
    have fired := firedScopes s scope.signal
    split <;>
    · rename_i same
      rw [same] at fired
      rw [show (_ : Scopes ν) = _ from fired]
      exact ⟨elsewhereFire (h.foreign found), apartFire h scope.signal⟩

theorem elsewhereFinish (h : Apart s) (session : SessionId) (id : ScopeId) :
    Elsewhere session s (s.finish session id).2 ∧ Apart (s.finish session id).2 := by
  unfold Scopes.finish
  split
  · exact ⟨elsewhereErase s session, apartErase h session⟩
  · exact ⟨.refl s, h⟩

theorem elsewhereDiscard (h : Apart s) (silent : Silent s.signals) (session : SessionId) :
    Elsewhere session s (s.discard session).2 ∧ Apart (s.discard session).2 := by
  rcases discarded silent session with ⟨-, same⟩ | ⟨scope, signals, found, rfl, same⟩
  · rw [same]
    exact ⟨.refl s, h⟩
  · have fired := elsewhereFire (h.foreign found)
    rw [same]
    exact ⟨fired.trans (elsewhereErase _ session), apartErase (apartFire h scope.signal) session⟩

def put (s : Scopes ν) (session : SessionId) : Scopes ν where
  signals := s.signals.create.2
  live := s.live.insert session ⟨⟨s.lastId + 1⟩, s.signals.create.1⟩
  lastId := s.lastId + 1

theorem elsewherePut (h : Apart s) (session : SessionId) :
    Elsewhere session s (put s session) ∧ Apart (put s session) := by
  -- The new signal stands behind all that there were, so no scope that is live already has it.
  have long : s.signals.create.2.all.length = s.signals.all.length + 1 := by simp [Signals.create]
  have found {other : SessionId} {scope : Scope} (there : (put s session).live.get? other = some scope) :
      other = session ∧ scope.signal.index = s.signals.all.length ∨
        other ≠ session ∧ s.live.get? other = some scope := by
    unfold put at there
    rw [Dict.getInsert] at there
    split at there
    · cases there
      exact .inl ⟨by assumption, rfl⟩
    · exact .inr ⟨by assumption, there⟩
  refine ⟨⟨fun other apart => ?_, fun other scope _ there => getOld _ (h.known other scope there),
    Signals.grownCreate _⟩, fun other scope there => ?_, fun a b first second left right same => ?_⟩
  · unfold put
    rw [Dict.getInsert, if_neg apart]
  · change scope.signal.index < s.signals.create.2.all.length
    rw [long]
    rcases found there with ⟨-, new⟩ | ⟨-, old⟩
    · exact Nat.lt_succ_of_le (Nat.le_of_eq new)
    · exact Nat.lt_succ_of_lt (h.known other scope old)
  · rcases found left with ⟨mine, new⟩ | ⟨-, old⟩ <;> rcases found right with ⟨own, last⟩ | ⟨-, before⟩
    · exact mine.trans own.symm
    · have known := h.known b second before
      rw [← same, new] at known
      exact absurd known (Nat.lt_irrefl _)
    · have known := h.known a first old
      rw [same, last] at known
      exact absurd known (Nat.lt_irrefl _)
    · exact h.apart a b first second old before same

theorem elsewhereReplace (h : Apart s) (session : SessionId) :
    Elsewhere session s (s.replace session).2.2 ∧ Apart (s.replace session).2.2 := by
  obtain ⟨first, apart⟩ := elsewherePut h session
  unfold Scopes.replace
  dsimp only
  split
  · exact ⟨first, apart⟩
  · rename_i previous found
    have foreign : Foreign (put s session) session previous.signal := fun other scope different there =>
      h.foreign found other scope different ((first.live other different).symm.trans there)
    rw [firedScopes]
    exact ⟨first.trans (elsewhereFire foreign), apartFire apart previous.signal⟩

theorem begunUnfired (h : Apart s) (session : SessionId) :
    (s.replace session).2.2.signals.isFired (s.replace session).1.signal = false := by
  have fresh : s.signals.create.2.isFired s.signals.create.1 = false := by
    unfold Signals.isFired
    rw [Signals.getCreate, if_pos rfl]
    rfl
  unfold Scopes.replace
  dsimp only
  split
  · exact fresh
  · rename_i previous found
    have known := h.known session previous found
    have other : s.signals.create.1 ≠ previous.signal := fun same => by
      rw [← same] at known
      exact Nat.lt_irrefl _ known
    rw [firedScopes]
    change (s.signals.create.2.fire previous.signal).2.isFired s.signals.create.1 = false
    unfold Signals.isFired
    rw [getFire _ other]
    exact fresh

variable {a b : Shell} {id : TaskId} {task : Shell.Task}

theorem elsewhereBegin (h : Sound a) (apart : Apart a.scopes) (session : SessionId) :
    Elsewhere session a.scopes (a.scopes.begin session).2.2 ∧ Apart (a.scopes.begin session).2.2 := by
  rw [(begunScopes h session).2]
  exact elsewhereReplace apart session

theorem elsewhereHalted {r : Running} {scopes : Scopes Echo} (apart : Apart scopes)
    (halted : Halted a scopes r b) : Elsewhere r.session scopes b.scopes ∧ Apart b.scopes := by
  cases halted with
  | stays same stands unique =>
    rw [same]
    exact ⟨.refl _, apart⟩
  | ends gone stands unique =>
    rw [gone]
    exact elsewhereFinish apart r.session r.scope.id

theorem runningSession {r : Running} (made : running? id task = some r) :
    session? task = some r.session := by
  cases task with
  | program c _ | waiting c _ =>
    unfold running? at made
    dsimp only at made
    split at made
    · cases made
      rfl
    · cases made
  | line | job | watcher => cases made

theorem elsewhereTurned (h : Sound a) (unique : Unique a) (apart : Apart a.scopes)
    (found : a.tasks.lookup id = some task) (own : session? task = some session)
    (turned : Turned a id b) : Elsewhere session a.scopes b.scopes := by
  cases turned with
  | beside same =>
    rw [same.scopes]
    exact .refl _
  | command r there mine halted =>
    obtain ⟨other, listed, made⟩ := runningMember.mp there
    rw [mine] at listed made
    rw [oneTask unique listed (Shell.lookedUp found)] at made
    cases own.symm.trans (runningSession made)
    exact (elsewhereHalted apart halted).1
  | line other text piped listed away halted =>
    cases found.symm.trans listed
    cases own
    obtain ⟨begun, still⟩ := elsewhereBegin h apart session
    exact begun.trans (elsewhereHalted still halted).1

theorem apartTurned (h : Sound a) (apart : Apart a.scopes) (turned : Turned a id b) :
    Apart b.scopes := by
  cases turned with
  | beside same =>
    rw [same.scopes]
    exact apart
  | command r there mine halted => exact (elsewhereHalted apart halted).2
  | line other text piped listed away halted =>
    exact (elsewhereHalted (elsewhereBegin h apart other).2 halted).2

theorem apartReachable (h : Shell.Reachable a) : Apart a.scopes := by
  induction h with
  | start made =>
    obtain ⟨registry, rfl⟩ := Shell.registerElsewhere made
    exact ⟨fun _ _ found => (nomatch found), fun _ _ _ _ found => (nomatch found)⟩
  | step before move ih =>
    have sound := Shell.soundReachable before
    obtain ⟨begun, recorded⟩ := recordedReachable before
    cases stepMoved sound move with
    | beside same =>
      rw [same.scopes]
      exact ih
    | cancelled session scopes =>
      rw [scopes, silentCancel sound.scopes]
      exact (elsewhereInterrupt ih session).2
    | closed session scopes =>
      rw [scopes]
      exact (elsewhereDiscard ih sound.scopes session).2
    | turn tie id same =>
      rw [same]
      exact apartTurned sound ih (resumeTurned sound (stagedRecorded recorded).unique tie id)

end ConsoleShell.ScopeTokens
