import ConsoleShell.Proofs.Captured
import ConsoleShell.Proofs.ScopeSafety
import ConsoleShell.Shell.Task

/-! Scopes with those who run under them. What is done to the scopes takes no command its scope before
the signal of it has fired, and leaves no scope live whose command has ended. -/
namespace ConsoleShell.Foreground
open ScopeSafety Captured

structure Running where
  task : TaskId
  session : SessionId
  scope : Scope
  deriving DecidableEq, Repr

variable {ν : Type} {scopes : Scopes ν} {running : List Running}
  {begun : List (SessionId × Scope)} {released : List (SessionId × ScopeId)}

/- Every command under way runs under a scope of its own that it has not given up, and every live
scope is that of a command under way. -/
structure Held (running : List Running) (scopes : Scopes ν) (begun : List (SessionId × Scope))
    (released : List (SessionId × ScopeId)) : Prop where
  safe : Safe scopes begun released
  counted : ∀ e ∈ released, e.2.number ≤ scopes.lastId
  begun : ∀ r ∈ running, (r.session, r.scope) ∈ begun
  unreleased : ∀ r ∈ running, (r.session, r.scope.id) ∉ released
  apart : ∀ a ∈ running, ∀ b ∈ running, a.scope.id = b.scope.id → a = b
  holds : ∀ session scope, scopes.live.get? session = some scope →
    ∃ r ∈ running, r.session = session ∧ r.scope = scope

theorem replaced (s : Scopes ν) (session : SessionId) :
    (s.replace session).1 = ⟨⟨s.lastId + 1⟩, s.signals.create.1⟩ ∧
      (s.replace session).2.2.live = s.live.insert session (s.replace session).1 ∧
      (s.replace session).2.2.lastId = s.lastId + 1 := by
  unfold Scopes.replace
  dsimp only
  split
  · exact ⟨rfl, rfl, rfl⟩
  · rw [firedScopes]
    exact ⟨rfl, rfl, rfl⟩

theorem interrupted (s : Scopes ν) (session : SessionId) :
    ∃ signals, (s.interrupt session).2.2 = { s with signals } := by
  unfold Scopes.interrupt
  split
  · exact ⟨s.signals, rfl⟩
  · rename_i scope _
    have fired := firedScopes s scope.signal
    split <;>
    · rename_i same
      rw [same] at fired
      exact ⟨_, fired⟩

theorem finished (s : Scopes ν) (session : SessionId) (id : ScopeId) :
    (s.finish session id).2.signals = s.signals ∧ (s.finish session id).2.lastId = s.lastId ∧
      ∀ other scope, (s.finish session id).2.live.get? other = some scope ↔
        s.live.get? other = some scope ∧ ¬ (other = session ∧ scope.id = id) := by
  unfold Scopes.finish
  split
  · rename_i own
    refine ⟨rfl, rfl, fun other scope => ?_⟩
    rw [Dict.getErase]
    by_cases same : other = session
    · subst same
      cases found : s.live.get? other with
      | none => simp
      | some live =>
        have mine : live.id = id := by simpa [found] using own
        rw [if_pos rfl]
        refine iff_of_false (by simp) ?_
        rintro ⟨same, other⟩
        exact other ⟨rfl, Option.some.inj same ▸ mine⟩
    · simp [same]
  · rename_i foreign
    refine ⟨rfl, rfl, fun other scope => ⟨fun found => ⟨found, ?_⟩, fun found => found.1⟩⟩
    rintro ⟨rfl, same⟩
    simp [found, same] at foreign

theorem heldMembers {later : List Running} (held : Held running scopes begun released)
    (same : ∀ r, r ∈ later ↔ r ∈ running) : Held later scopes begun released where
  safe := held.safe
  counted := held.counted
  begun r mem := held.begun r ((same r).mp mem)
  unreleased r mem := held.unreleased r ((same r).mp mem)
  apart a left b right := held.apart a ((same a).mp left) b ((same b).mp right)
  holds session scope found := by
    obtain ⟨r, mem, own⟩ := held.holds session scope found
    exact ⟨r, (same r).mpr mem, own⟩

theorem heldInterrupt (held : Held running scopes begun released) (session : SessionId) :
    Held running (scopes.interrupt session).2.2 begun released := by
  have safe := safeInterrupt held.safe session
  obtain ⟨signals, same⟩ := interrupted scopes session
  rw [same] at safe ⊢
  exact ⟨safe, held.counted, held.begun, held.unreleased, held.apart, held.holds⟩

theorem discarded (silent : Silent scopes.signals) (session : SessionId) :
    scopes.live.get? session = none ∧ (scopes.discard session).2 = scopes ∨
      ∃ scope signals, scopes.live.get? session = some scope ∧
        signals = (scopes.signals.fire scope.signal).2 ∧
        (scopes.discard session).2 = { scopes with live := scopes.live.erase session, signals } := by
  unfold Scopes.discard
  split
  · exact .inl ⟨by assumption, rfl⟩
  · rename_i scope found
    have quiet := (silentScopesFire (s := { scopes with live := scopes.live.erase session }) silent
      scope.signal).1
    refine .inr ⟨scope, _, found, rfl, ?_⟩
    dsimp only
    rw [quiet, runNothing, firedScopes]

theorem heldDiscard (held : Held running scopes begun released) (silent : Silent scopes.signals)
    (session : SessionId) : Held running (scopes.discard session).2 begun released := by
  rcases discarded silent session with ⟨-, same⟩ | ⟨scope, signals, found, rfl, same⟩
  · rw [same]
    exact held
  · have safe := safeDiscard held.safe found
    rw [firedScopes] at safe
    rw [same]
    refine ⟨safe, held.counted, held.begun, held.unreleased, held.apart, fun other kept there => ?_⟩
    change (scopes.live.erase session).get? other = some kept at there
    rw [Dict.getErase] at there
    split at there
    · contradiction
    · exact held.holds other kept there

theorem heldReplace (held : Held running scopes begun released) (task : TaskId)
    (session : SessionId) :
    Held (running ++ [⟨task, session, (scopes.replace session).1⟩]) (scopes.replace session).2.2
      (begun ++ [(session, (scopes.replace session).1)]) released := by
  have safe := safeReplace held.safe session
  obtain ⟨scope, live, count⟩ := replaced scopes session
  have number : (scopes.replace session).1.id.number = scopes.lastId + 1 := by rw [scope]
  have fresh (r : Running) (mem : r ∈ running) : r.scope.id ≠ (scopes.replace session).1.id := by
    intro same
    have counted := held.safe.counted _ (held.begun r mem)
    rw [same, number] at counted
    exact Nat.not_succ_le_self _ counted
  refine ⟨safe, ?_, ?_, ?_, ?_, ?_⟩
  · rw [count]
    exact fun e mem => Nat.le_succ_of_le (held.counted e mem)
  · exact eachAdded (fun r mem => List.mem_append_left _ (held.begun r mem))
      (List.mem_append_right _ List.mem_cons_self)
  · refine eachAdded held.unreleased fun mem => ?_
    have counted := held.counted _ mem
    rw [number] at counted
    exact Nat.not_succ_le_self _ counted
  · intro a left b right same
    rcases List.mem_append.mp left with oldLeft | newLeft <;>
      rcases List.mem_append.mp right with oldRight | newRight
    · exact held.apart a oldLeft b oldRight same
    · rw [List.mem_singleton.mp newRight] at same
      exact absurd same (fresh a oldLeft)
    · rw [List.mem_singleton.mp newLeft] at same
      exact absurd same.symm (fresh b oldRight)
    · rw [List.mem_singleton.mp newLeft, List.mem_singleton.mp newRight]
  · intro other kept there
    rw [live, Dict.getInsert] at there
    split at there
    · rename_i same
      cases there
      exact ⟨_, List.mem_append_right _ List.mem_cons_self, same.symm, rfl⟩
    · obtain ⟨r, mem, own⟩ := held.holds other kept there
      exact ⟨r, List.mem_append_left _ mem, own⟩

theorem heldFinish (held : Held running scopes begun released) {r : Running} (mem : r ∈ running)
    (later : List Running) (rest : ∀ x, x ∈ later ↔ x ∈ running ∧ x ≠ r) :
    ∃ released, Held later (scopes.finish r.session r.scope.id).2 begun released := by
  obtain ⟨signals, count, live⟩ := finished scopes r.session r.scope.id
  have own {session : SessionId} {id : ScopeId}
      (listed : (session, id) ∈ if (scopes.finish r.session r.scope.id).1 then
        [(r.session, r.scope.id)] else []) : session = r.session ∧ id = r.scope.id := by
    split at listed
    · simpa using listed
    · contradiction
  refine ⟨_, safeFinish held.safe r.session r.scope.id, ?_, ?_, ?_, ?_, ?_⟩
  · rw [count]
    intro e listed
    rcases List.mem_append.mp listed with before | new
    · exact held.counted e before
    · rw [(own new).2]
      exact held.safe.counted _ (held.begun r mem)
  · exact fun x listed => held.begun x ((rest x).mp listed).1
  · intro x listed given
    obtain ⟨before, other⟩ := (rest x).mp listed
    rcases List.mem_append.mp given with earlier | new
    · exact held.unreleased x before earlier
    · exact other (held.apart x before r mem (own new).2)
  · exact fun a left b right => held.apart a ((rest a).mp left).1 b ((rest b).mp right).1
  · intro session scope there
    obtain ⟨before, other⟩ := (live session scope).mp there
    obtain ⟨x, listed, rfl, rfl⟩ := held.holds session scope before
    refine ⟨x, (rest x).mpr ⟨listed, ?_⟩, rfl, rfl⟩
    rintro rfl
    exact other ⟨rfl, rfl⟩

end ConsoleShell.Foreground
