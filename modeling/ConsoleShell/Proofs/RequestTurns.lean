import ConsoleShell.Request
import ConsoleShell.Proofs.Dict

/-! What happens to one request. Of everything that is done with requests, only what is done in its own
session and by its own command touches it, and it takes each of these turns by itself. -/
namespace ConsoleShell

inductive RequestMove where
  | await (session : SessionId)
  | poll (id : RequestId)
  | drop (id : RequestId)
  | deliver (session : SessionId) (line : Text)
  | hasPending (session : SessionId)
  | cancel (session : SessionId)
  deriving DecidableEq

def RequestMove.run (r : Requests) : RequestMove → Requests
  | await session => (r.await session).2.2
  | poll id => (r.poll id).2
  | drop id => r.abandon id
  | deliver session line => (r.deliver session line).2
  | hasPending _ => r
  | cancel session => (r.cancel session).2

def RequestMove.makes : RequestMove → List SessionId
  | await session => [session]
  | _ => []

namespace RequestTurns

inductive Turn where
  | withdrawn
  | handed (line : Text)
  | looked
  | dropped

def turn? (session : SessionId) (id : RequestId) : RequestMove → Option Turn
  | .await other | .cancel other => if session = other then some .withdrawn else none
  | .deliver other line => if session = other then some (.handed line) else none
  | .poll other => if id = other then some .looked else none
  | .drop other => if id = other then some .dropped else none
  | .hasPending _ => none

/- Only a request that waits can be withdrawn or handed a line, and once its command has looked at what
it came to, nothing is left of it. -/
def fate : RequestState → Turn → RequestState
  | .waiting, .withdrawn => .replaced
  | .waiting, .handed line => .answered line
  | .waiting, .looked => .waiting
  | _, .looked | _, .dropped => .closed
  | state, _ => state

def Touches (session : SessionId) : RequestMove → Prop
  | .await other | .deliver other _ | .cancel other => other = session
  | .poll _ | .drop _ | .hasPending _ => False

instance (session : SessionId) : (m : RequestMove) → Decidable (Touches session m)
  | .await other | .deliver other _ | .cancel other => inferInstanceAs (Decidable (other = session))
  | .poll _ | .drop _ | .hasPending _ => inferInstanceAs (Decidable False)

def newest? (owners : List SessionId) (session : SessionId) : Option RequestId :=
  (owners.zipIdx.filter fun e => e.1 = session).getLast?.map fun e => ⟨e.2⟩

theorem newestAdd (owners : List SessionId) (session other : SessionId) :
    newest? (owners ++ [other]) session =
      if other = session then some ⟨owners.length⟩ else newest? owners session := by
  unfold newest?
  by_cases same : other = session <;> simp [List.zipIdx_append, List.filter_append, same]

theorem newestOwner {owners : List SessionId} {session : SessionId} {id : RequestId}
    (newest : newest? owners session = some id) : owners[id.index]? = some session := by
  obtain ⟨⟨owner, n⟩, last, rfl⟩ := Option.map_eq_some_iff.mp newest
  obtain ⟨listed, same⟩ := List.mem_filter.mp (List.mem_of_getLast? last)
  rw [← of_decide_eq_true same]
  exact List.mem_zipIdx_iff_getElem?.mp listed

/- Pending requests are the newest of their sessions, and every request that waits is pending. -/
structure Registered (r : Requests) (owners : List SessionId) : Prop where
  counted : r.states.length = owners.length
  newest : ∀ session id, r.pending.get? session = some id → newest? owners session = some id
  pending : ∀ session id, owners[id.index]? = some session → r.state id = .waiting →
    r.pending.get? session = some id

section States

variable (r : Requests)

theorem sameRequest {a b : RequestId} : a.index = b.index ↔ a = b := by
  cases a
  cases b
  simp

theorem unknownState {id : RequestId} (outside : r.states.length ≤ id.index) :
    r.state id = .closed := by
  simp [Requests.state, List.getElem?_eq_none outside]

theorem knownState {id : RequestId} (live : r.state id ≠ .closed) : id.index < r.states.length :=
  Nat.lt_of_not_le fun outside => live (unknownState r outside)

theorem stateSet (id other : RequestId) (state : RequestState) :
    (r.setState id state).state other =
      if other = id ∧ id.index < r.states.length then state else r.state other := by
  unfold Requests.state Requests.setState
  dsimp only
  simp only [List.getElem?_set, sameRequest]
  by_cases same : other = id
  · subst same
    by_cases inside : other.index < r.states.length
    · simp [inside]
    · simp [inside]
  · simp [same, Ne.symm same]

theorem stateClosed (id other : RequestId) :
    (r.setState id .closed).state other = if other = id then .closed else r.state other := by
  rw [stateSet]
  by_cases same : other = id
  · subst same
    by_cases inside : other.index < r.states.length
    · simp [inside]
    · simp [inside, unknownState r (Nat.le_of_not_lt inside)]
  · simp [same]

theorem stateRevoked (id other : RequestId) :
    (r.revoke id).state other = if other = id then fate (r.state other) .withdrawn else r.state other := by
  unfold Requests.revoke
  split
  · rename_i waits
    have inside := knownState r (show r.state id ≠ .closed by simp [waits])
    rw [stateSet]
    by_cases same : other = id
    · subst same
      simp [inside, waits, fate]
    · simp [same]
  · rename_i settled
    by_cases same : other = id
    · subst same
      cases state : r.state other <;> simp_all [fate]
    · simp [same]

theorem statePolled (id other : RequestId) :
    (r.poll id).2.state other = if other = id then fate (r.state other) .looked else r.state other := by
  unfold Requests.poll
  by_cases same : other = id
  · subst same
    cases state : r.state other <;> simp [state, fate, stateClosed]
  · cases r.state id <;> simp [same, stateClosed]

theorem revokePending (id : RequestId) : (r.revoke id).pending = r.pending := by
  unfold Requests.revoke
  split <;> rfl

theorem revokeCount (id : RequestId) : (r.revoke id).states.length = r.states.length := by
  unfold Requests.revoke Requests.setState
  split <;> simp

theorem pollPending (id : RequestId) : (r.poll id).2.pending = r.pending := by
  unfold Requests.poll
  split <;> rfl

theorem pollCount (id : RequestId) : (r.poll id).2.states.length = r.states.length := by
  unfold Requests.poll Requests.setState
  split <;> simp

theorem awaitPending (session : SessionId) :
    (r.await session).2.2.pending = r.pending.insert session ⟨r.states.length⟩ := by
  unfold Requests.await
  cases r.pending.get? session with
  | none => rfl
  | some other => exact congrArg (Dict.insert · session ⟨r.states.length⟩) (revokePending r other)

theorem awaitCount (session : SessionId) :
    (r.await session).2.2.states.length = r.states.length + 1 := by
  unfold Requests.await
  cases r.pending.get? session with
  | none => simp
  | some other => simp [revokeCount]

theorem newWaits (session : SessionId) :
    (r.await session).2.2.state ⟨r.states.length⟩ = .waiting := by
  have counted := awaitCount r session
  unfold Requests.await at counted
  unfold Requests.state Requests.await
  rw [List.length_append, List.length_singleton] at counted
  rw [← Nat.add_right_cancel counted]
  simp

theorem deliverPending (session : SessionId) (line : Text) (other : SessionId) :
    (r.deliver session line).2.pending.get? other =
      if other = session then none else r.pending.get? other := by
  unfold Requests.deliver
  cases found : r.pending.get? session with
  | none => by_cases same : other = session <;> simp [same, found]
  | some id =>
    dsimp only
    rw [← Dict.getErase]
    split <;> rfl

theorem deliverCount (session : SessionId) (line : Text) :
    (r.deliver session line).2.states.length = r.states.length := by
  unfold Requests.deliver Requests.setState
  cases r.pending.get? session with
  | none => rfl
  | some id =>
    dsimp only
    split <;> simp

theorem cancelPending (session other : SessionId) :
    (r.cancel session).2.pending.get? other =
      if other = session then none else r.pending.get? other := by
  unfold Requests.cancel
  cases found : r.pending.get? session with
  | none => by_cases same : other = session <;> simp [same, found]
  | some id =>
    rw [← Dict.getErase]
    exact congrArg (·.get? other) (revokePending _ id)

theorem cancelCount (session : SessionId) :
    (r.cancel session).2.states.length = r.states.length := by
  unfold Requests.cancel
  cases r.pending.get? session with
  | none => rfl
  | some id => exact revokeCount _ id

/- What a move makes of the place of a session: a request comes into it, or whatever stood there goes. -/
theorem placeAfter (m : RequestMove) (session : SessionId) :
    (m.run r).pending.get? session =
      if m = .await session then some ⟨r.states.length⟩
      else if Touches session m then none
      else r.pending.get? session := by
  cases m with
  | await other =>
    refine (congrArg (Dict.get? · session) (awaitPending r other)).trans ?_
    rw [Dict.getInsert]
    by_cases same : session = other
    · simp [same]
    · simp [Touches, same, Ne.symm same]
  | poll id => exact congrArg (Dict.get? · session) (pollPending r id)
  | drop id | hasPending other => rfl
  | deliver other line =>
    refine (deliverPending r other line session).trans ?_
    simp [Touches, eq_comm]
  | cancel other =>
    refine (cancelPending r other session).trans ?_
    simp [Touches, eq_comm]

theorem placeStays {m : RequestMove} {session : SessionId} (untouched : ¬ Touches session m) :
    (m.run r).pending.get? session = r.pending.get? session := by
  have other : m ≠ .await session := by
    rintro rfl
    exact untouched rfl
  rw [placeAfter, if_neg other, if_neg untouched]

theorem emptyStays {r : Requests} {session : SessionId} (empty : r.pending.get? session = none)
    {m : RequestMove} (other : m ≠ .await session) : (m.run r).pending.get? session = none := by
  rw [placeAfter, if_neg other, empty]
  split <;> rfl

theorem moveCount (m : RequestMove) :
    (m.run r).states.length = r.states.length + m.makes.length := by
  cases m with
  | await session => exact awaitCount r session
  | poll id => exact pollCount r id
  | drop id => exact List.length_set
  | deliver session line => exact deliverCount r session line
  | hasPending session => rfl
  | cancel session => exact cancelCount r session

end States

theorem fateSettled {state : RequestState} (settled : state ≠ .waiting) (line : Text) :
    fate state .withdrawn = state ∧ fate state (.handed line) = state := by
  cases state <;> simp_all [fate]

theorem takenWhen (mine : Prop) [Decidable mine] (state : RequestState) (turn : Turn) :
    ((if mine then some turn else none).map (fate state)).getD state =
      if mine then fate state turn else state := by
  split <;> rfl

theorem fateWaits {state : RequestState} {turn : Turn} (waits : fate state turn = .waiting) :
    state = .waiting ∧ turn = .looked := by
  cases state <;> cases turn <;> simp_all [fate]

section Moves

variable {r : Requests} {owners : List SessionId} (h : Registered r owners)

include h

theorem ownedKnown {session : SessionId} {id : RequestId} (owned : owners[id.index]? = some session) :
    id.index < r.states.length := by
  rw [h.counted]
  exact (List.getElem?_eq_some_iff.mp owned).1

theorem pendingOwned {session : SessionId} {id : RequestId}
    (found : r.pending.get? session = some id) : owners[id.index]? = some session :=
  newestOwner (h.newest session id found)

theorem elsewhereSettled {session : SessionId} {id : RequestId}
    (owned : owners[id.index]? = some session) (elsewhere : r.pending.get? session ≠ some id) :
    r.state id ≠ .waiting :=
  fun waits => elsewhere (h.pending session id owned waits)

theorem withdrawnState (session : SessionId) {owner : SessionId} {id : RequestId}
    (owned : owners[id.index]? = some owner) :
    (((r.pending.get? session).map r.revoke).getD r).state id =
      if owner = session then fate (r.state id) .withdrawn else r.state id := by
  have settled (same : owner = session) (elsewhere : r.pending.get? session ≠ some id) :
      fate (r.state id) .withdrawn = r.state id :=
    (fateSettled (elsewhereSettled h owned (same.symm ▸ elsewhere)) []).1
  cases found : r.pending.get? session with
  | none =>
    split
    · rename_i same
      exact (settled same (by simp [found])).symm
    · rfl
  | some other =>
    change (r.revoke other).state id = _
    rw [stateRevoked]
    by_cases same : id = other
    · subst same
      have equal := Option.some.inj (owned.symm.trans (pendingOwned h found))
      simp [equal]
    · rw [if_neg same]
      split
      · rename_i equal
        exact (settled equal (by simp [found, Ne.symm same])).symm
      · rfl

theorem handedState (session : SessionId) (line : Text) {owner : SessionId} {id : RequestId}
    (owned : owners[id.index]? = some owner) :
    (r.deliver session line).2.state id =
      if owner = session then fate (r.state id) (.handed line) else r.state id := by
  have settled (same : owner = session) (elsewhere : r.pending.get? session ≠ some id) :
      fate (r.state id) (.handed line) = r.state id :=
    (fateSettled (elsewhereSettled h owned (same.symm ▸ elsewhere)) line).2
  unfold Requests.deliver
  cases found : r.pending.get? session with
  | none =>
    dsimp only
    split
    · rename_i same
      exact (settled same (by simp [found])).symm
    · rfl
  | some other =>
    have inside := ownedKnown h (pendingOwned h found)
    have stays : ({ r with pending := r.pending.erase session } : Requests).state = r.state := rfl
    dsimp only
    rw [stays]
    by_cases same : id = other
    · subst same
      have equal := Option.some.inj (owned.symm.trans (pendingOwned h found))
      rw [if_pos equal]
      split
      · rename_i waits
        rw [stateSet, if_pos ⟨rfl, inside⟩, waits]
        rfl
      · rename_i done
        exact (fateSettled done line).2.symm
    · have kept : (if r.state other = RequestState.waiting
          then (true, { r with pending := r.pending.erase session }.setState other (.answered line))
          else (false, { r with pending := r.pending.erase session })).2.state id = r.state id := by
        split
        · rw [stateSet, if_neg fun both => same both.1]
          rfl
        · rfl
      rw [kept]
      split
      · rename_i equal
        exact (settled equal (by simp [found, Ne.symm same])).symm
      · rfl

theorem awaitState (session : SessionId) {owner : SessionId} {id : RequestId}
    (owned : owners[id.index]? = some owner) :
    (r.await session).2.2.state id =
      if owner = session then fate (r.state id) .withdrawn else r.state id := by
  have inside : id.index < (((r.pending.get? session).map r.revoke).getD r).states.length := by
    cases r.pending.get? session with
    | none => exact ownedKnown h owned
    | some other =>
      change _ < (r.revoke other).states.length
      rw [revokeCount]
      exact ownedKnown h owned
  rw [← withdrawnState h session owned]
  unfold Requests.state Requests.await
  dsimp only
  rw [List.getElem?_append_left inside]

theorem cancelState (session : SessionId) {owner : SessionId} {id : RequestId}
    (owned : owners[id.index]? = some owner) :
    (r.cancel session).2.state id =
      if owner = session then fate (r.state id) .withdrawn else r.state id := by
  rw [← withdrawnState h session owned]
  unfold Requests.cancel
  cases r.pending.get? session with
  | none => rfl
  | some other =>
    change ({ r with pending := r.pending.erase session }.revoke other).state id =
      (r.revoke other).state id
    rw [stateRevoked, stateRevoked]
    rfl

/- A move is at most one turn for a request, and no turn at all for the requests of other sessions. -/
theorem moveState (m : RequestMove) {session : SessionId} {id : RequestId}
    (owned : owners[id.index]? = some session) :
    (m.run r).state id = ((turn? session id m).map (fate (r.state id))).getD (r.state id) := by
  cases m with
  | await other => exact (awaitState h other owned).trans (takenWhen _ _ _).symm
  | poll other => exact (statePolled r other id).trans (takenWhen _ _ _).symm
  | drop other =>
    refine (stateClosed r other id).trans (Eq.trans ?_ (takenWhen _ _ _).symm)
    cases r.state id <;> rfl
  | deliver other line => exact (handedState h other line owned).trans (takenWhen _ _ _).symm
  | hasPending other => rfl
  | cancel other => exact (cancelState h other owned).trans (takenWhen _ _ _).symm

theorem waitedOn (m : RequestMove) {session : SessionId} {id : RequestId}
    (owned : owners[id.index]? = some session) (waits : (m.run r).state id = .waiting) :
    r.state id = .waiting ∧ (turn? session id m = none ∨ turn? session id m = some .looked) := by
  rw [moveState h m owned] at waits
  cases turn : turn? session id m with
  | none =>
    rw [turn] at waits
    exact ⟨waits, .inl rfl⟩
  | some taken =>
    rw [turn] at waits
    obtain ⟨before, rfl⟩ := fateWaits waits
    exact ⟨before, .inr rfl⟩

theorem registeredStays {m : RequestMove} (quiet : m.makes = [])
    (places : ∀ session, (m.run r).pending.get? session = r.pending.get? session ∨
      (m.run r).pending.get? session = none ∧
        ∀ id, turn? session id m ≠ none ∧ turn? session id m ≠ some .looked) :
    Registered (m.run r) (owners ++ m.makes) where
  counted := by rw [moveCount, List.length_append, h.counted]
  newest session id found := by
    rw [quiet, List.append_nil]
    rcases places session with same | ⟨gone, -⟩
    · exact h.newest session id (same ▸ found)
    · cases gone.symm.trans found
  pending session id owned waits := by
    rw [quiet, List.append_nil] at owned
    obtain ⟨before, turn⟩ := waitedOn h m owned waits
    rcases places session with same | ⟨-, ended⟩
    · rw [same]
      exact h.pending session id owned before
    · rcases turn with unturned | looked
      · exact absurd unturned (ended id).1
      · exact absurd looked (ended id).2

theorem registeredAwait (session : SessionId) :
    Registered (r.await session).2.2 (owners ++ [session]) where
  counted := by rw [awaitCount, List.length_append, h.counted, List.length_singleton]
  newest other id found := by
    rw [awaitPending, Dict.getInsert] at found
    rw [newestAdd]
    by_cases same : other = session
    · rw [if_pos same] at found
      rw [if_pos same.symm, ← h.counted]
      exact found
    · rw [if_neg same] at found
      rw [if_neg (Ne.symm same)]
      exact h.newest other id found
  pending other id owned waits := by
    rw [awaitPending, Dict.getInsert]
    rcases Nat.lt_or_ge id.index owners.length with inside | outside
    · rw [List.getElem?_append_left inside] at owned
      obtain ⟨before, turn⟩ := waitedOn h (.await session) owned waits
      by_cases same : other = session
      · simp [turn?, same] at turn
      · rw [if_neg same]
        exact h.pending other id owned before
    · rw [List.getElem?_append_right outside] at owned
      obtain ⟨place, rfl⟩ := List.getElem?_eq_some_iff.mp owned
      have last : id = ⟨r.states.length⟩ := by
        rw [List.length_singleton] at place
        rw [← sameRequest, h.counted]
        dsimp only
        omega
      simp [last]

theorem registeredMove (m : RequestMove) : Registered (m.run r) (owners ++ m.makes) := by
  cases m with
  | await session => exact registeredAwait h session
  | poll id | drop id | hasPending session =>
    exact registeredStays h rfl fun _ => .inl (placeStays r not_false)
  | deliver session line | cancel session =>
    refine registeredStays h rfl fun other => ?_
    by_cases same : session = other
    · exact .inr ⟨by simp [placeAfter, Touches, same], by simp [turn?, same]⟩
    · exact .inl (placeStays r same)

theorem registeredStill {m : RequestMove} (quiet : m.makes = []) : Registered (m.run r) owners := by
  have moved := registeredMove h m
  rwa [quiet, List.append_nil] at moved

end Moves

theorem registeredEmpty : Registered .empty [] where
  counted := rfl
  newest _ _ found := nomatch found
  pending _ _ owned := nomatch owned

end RequestTurns
end ConsoleShell
