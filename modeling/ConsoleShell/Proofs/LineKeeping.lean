import ConsoleShell.Proofs.RequestTurns

/-! Lines that are taken from the user. Each goes to the one request that its session made last and
waits there for the command to look; none is lost while the command is there, and none is seen twice. -/
namespace ConsoleShell.LineKeeping
open RequestTurns

/- Requests, and for the reasoning alone: the sessions of all requests in the order in which they were
made, every line that was taken with the newest request of its session, what commands found in the end,
and which commands have gone away. -/
structure Ledger where
  requests : Requests := .empty
  owners : List SessionId := []
  handed : List (RequestId × Text) := []
  results : List (RequestId × Except InputError Text) := []
  dropped : List RequestId := []

def hands (l : Ledger) : RequestMove → List (RequestId × Text)
  | .deliver session line =>
    if (l.requests.deliver session line).1 then
      ((newest? l.owners session).map fun id => (id, line)).toList
    else []
  | _ => []

def finds (r : Requests) : RequestMove → List (RequestId × Except InputError Text)
  | .poll id =>
    match (r.poll id).1 with
    | .line line => [(id, .ok line)]
    | .error e => [(id, .error e)]
    | _ => []
  | _ => []

def drops (l : Ledger) : RequestMove → List RequestId
  | .drop id => if id.index < l.owners.length then [id] else []
  | _ => []

namespace Ledger

def move (l : Ledger) (m : RequestMove) : Ledger where
  requests := m.run l.requests
  owners := l.owners ++ m.makes
  handed := l.handed ++ hands l m
  results := l.results ++ finds l.requests m
  dropped := l.dropped ++ drops l m

def after (l : Ledger) (moves : List RequestMove) : Ledger := moves.foldl move l

def look (l : Ledger) (id : RequestId) : RequestResult := (l.requests.poll id).1

def Mentions (l : Ledger) (id : RequestId) : Prop :=
  id ∈ l.handed.map Prod.fst ∨ id ∈ l.results.map Prod.fst ∨ id ∈ l.dropped

end Ledger

def Account (l : Ledger) (id : RequestId) : RequestState → Prop
  | .waiting | .replaced => ¬ l.Mentions id
  | .answered line => (id, line) ∈ l.handed ∧ id ∉ l.results.map Prod.fst ∧ id ∉ l.dropped
  | .closed => id ∈ l.results.map Prod.fst ∨ id ∈ l.dropped

def Genuine (l : Ledger) (id : RequestId) : Except InputError Text → Prop
  | .ok line => (id, line) ∈ l.handed
  | .error e => e = .superseded ∧ id ∉ l.handed.map Prod.fst

structure Kept (l : Ledger) : Prop where
  registered : Registered l.requests l.owners
  known : ∀ id, l.Mentions id → id.index < l.owners.length
  account : ∀ id, id.index < l.owners.length → Account l id (l.requests.state id)
  genuine : ∀ id result, (id, result) ∈ l.results → Genuine l id result
  handedOnce : (l.handed.map Prod.fst).Nodup
  foundOnce : (l.results.map Prod.fst).Nodup

theorem pendingIff (r : Requests) (session : SessionId) :
    r.hasPending session = true ↔ ∃ id, r.pending.get? session = some id ∧ r.state id = .waiting := by
  unfold Requests.hasPending
  cases r.pending.get? session <;> simp

theorem deliverTaken (r : Requests) (session : SessionId) (line : Text) :
    (r.deliver session line).1 = r.hasPending session := by
  unfold Requests.deliver Requests.hasPending
  cases r.pending.get? session with
  | none => rfl
  | some id =>
    have stays : ({ r with pending := r.pending.erase session } : Requests).state id = r.state id := rfl
    by_cases waits : r.state id = .waiting <;> simp [stays, waits]

theorem keptStart : Kept {} where
  registered := registeredEmpty
  known id mentioned := by simp [Ledger.Mentions] at mentioned
  account id inside := nomatch inside
  genuine id result listed := nomatch listed
  handedOnce := List.nodup_nil
  foundOnce := List.nodup_nil

theorem accountAlike {l next : Ledger} {id : RequestId} {state : RequestState}
    (account : Account l id state) (handed : ∀ line, (id, line) ∈ next.handed ↔ (id, line) ∈ l.handed)
    (results : id ∈ next.results.map Prod.fst ↔ id ∈ l.results.map Prod.fst)
    (dropped : id ∈ next.dropped ↔ id ∈ l.dropped) : Account next id state := by
  have taken : id ∈ next.handed.map Prod.fst ↔ id ∈ l.handed.map Prod.fst := by
    simp only [List.mem_map, Prod.exists, exists_and_right, exists_eq_right, handed]
  cases state <;>
    simpa only [Account, Ledger.Mentions, handed, results, dropped, taken] using account

theorem accountWithdrawn {l : Ledger} {id : RequestId} {state : RequestState}
    (account : Account l id state) : Account l id (fate state .withdrawn) := by
  cases state <;> exact account

theorem listedAdded {α β : Type} {entries : List (α × β)} {a b : α} {value : β} (other : a ≠ b) :
    a ∈ (entries ++ [(b, value)]).map Prod.fst ↔ a ∈ entries.map Prod.fst := by
  simp [other]

theorem onceAdded {α β : Type} {entries : List (α × β)} {a : α} (once : (entries.map Prod.fst).Nodup)
    (fresh : a ∉ entries.map Prod.fst) (value : β) : ((entries ++ [(a, value)]).map Prod.fst).Nodup := by
  rw [List.map_append, List.nodup_append]
  refine ⟨once, List.pairwise_singleton _ _, ?_⟩
  rintro b listed c new rfl
  cases List.mem_singleton.mp new
  exact fresh listed

theorem onceSame {α β : Type} {entries : List (α × β)} (once : (entries.map Prod.fst).Nodup) {a : α}
    {first second : β} (left : (a, first) ∈ entries) (right : (a, second) ∈ entries) :
    first = second := by
  induction entries with
  | nil => contradiction
  | cons entry rest ih =>
    obtain ⟨absent, others⟩ := List.nodup_cons.mp once
    rcases List.mem_cons.mp left with rfl | one
    · rcases List.mem_cons.mp right with same | two
      · exact (congrArg Prod.snd same).symm
      · exact absurd (List.mem_map_of_mem two) absent
    · rcases List.mem_cons.mp right with rfl | two
      · exact absurd (List.mem_map_of_mem one) absent
      · exact ih others one two

theorem ownerOf {l : Ledger} {id : RequestId} (inside : id.index < l.owners.length) :
    ∃ session, l.owners[id.index]? = some session :=
  ⟨l.owners[id.index], List.getElem?_eq_getElem inside⟩

section Moves

variable {l : Ledger} (kept : Kept l)

include kept

theorem pendingNewest {session : SessionId} (pending : l.requests.hasPending session = true) :
    ∃ id, newest? l.owners session = some id ∧ l.owners[id.index]? = some session ∧
      l.requests.state id = .waiting := by
  obtain ⟨id, found, waits⟩ := (pendingIff l.requests session).mp pending
  have newest := kept.registered.newest session id found
  exact ⟨id, newest, newestOwner newest, waits⟩

theorem onlyPending {session : SessionId} {id : RequestId}
    (owned : l.owners[id.index]? = some session) (waits : l.requests.state id = .waiting) :
    l.requests.hasPending session = true ∧ newest? l.owners session = some id := by
  have found := kept.registered.pending session id owned waits
  exact ⟨(pendingIff l.requests session).mpr ⟨id, found, waits⟩, kept.registered.newest session id found⟩

theorem keptSilent {m : RequestMove}
    (silent : hands l m = [] ∧ finds l.requests m = [] ∧ drops l m = [])
    (old : ∀ id, id.index < l.owners.length → (m.run l.requests).state id = l.requests.state id ∨
      (m.run l.requests).state id = fate (l.requests.state id) .withdrawn)
    (new : m.makes = [] ∨ ∀ id, l.owners.length ≤ id.index →
      id.index < (l.owners ++ m.makes).length → (m.run l.requests).state id = .waiting) :
    Kept (l.move m) := by
  obtain ⟨hands, finds, drops⟩ := silent
  have same : l.move m = { l with requests := m.run l.requests, owners := l.owners ++ m.makes } := by
    simp only [Ledger.move, hands, finds, drops, List.append_nil]
  rw [same]
  refine ⟨registeredMove kept.registered m, fun id mentioned => ?_, fun id inside => ?_, kept.genuine,
    kept.handedOnce, kept.foundOnce⟩
  · rw [List.length_append]
    exact Nat.lt_add_right _ (kept.known id mentioned)
  · rcases Nat.lt_or_ge id.index l.owners.length with before | after
    · have account := kept.account id before
      change Account l id ((m.run l.requests).state id)
      rcases old id before with still | withdrawn
      · exact still ▸ account
      · exact withdrawn ▸ accountWithdrawn account
    · change Account l id ((m.run l.requests).state id)
      rcases new with quiet | waits
      · rw [quiet, List.append_nil] at inside
        exact absurd inside (Nat.not_lt_of_le after)
      · rw [waits id after inside]
        exact fun mentioned => absurd (kept.known id mentioned) (Nat.not_lt_of_le after)

theorem keptAwait (session : SessionId) : Kept (l.move (.await session)) := by
  refine keptSilent kept ⟨rfl, rfl, rfl⟩ (fun id inside => ?_) (.inr fun id outside inside => ?_)
  · obtain ⟨owner, owned⟩ := ownerOf inside
    change (l.requests.await session).2.2.state id = _ ∨ (l.requests.await session).2.2.state id = _
    rw [awaitState kept.registered session owned]
    split
    · exact .inr rfl
    · exact .inl rfl
  · have last : id = ⟨l.requests.states.length⟩ := by
      rw [List.length_append] at inside
      rw [← sameRequest, kept.registered.counted]
      exact Nat.le_antisymm (Nat.le_of_lt_succ inside) outside
    rw [last]
    exact newWaits l.requests session

theorem keptCancel (session : SessionId) : Kept (l.move (.cancel session)) := by
  refine keptSilent kept ⟨rfl, rfl, rfl⟩ (fun id inside => ?_) (.inl rfl)
  obtain ⟨owner, owned⟩ := ownerOf inside
  change (l.requests.cancel session).2.state id = _ ∨ (l.requests.cancel session).2.state id = _
  rw [cancelState kept.registered session owned]
  split
  · exact .inr rfl
  · exact .inl rfl

theorem deliverElsewhere {session : SessionId} {id : RequestId} (line : Text)
    (elsewhere : l.requests.hasPending session = true → newest? l.owners session ≠ some id) :
    (l.requests.deliver session line).2.state id = l.requests.state id := by
  rcases Nat.lt_or_ge id.index l.owners.length with inside | outside
  · obtain ⟨owner, owned⟩ := ownerOf inside
    rw [handedState kept.registered session line owned]
    split
    · rename_i same
      refine (fateSettled (fun waits => ?_) line).2
      obtain ⟨pending, newest⟩ := onlyPending kept (same ▸ owned) waits
      exact elsewhere pending newest
    · rfl
  · rw [← kept.registered.counted] at outside
    rw [unknownState _ outside, unknownState _ ((deliverCount _ _ _).symm ▸ outside)]

theorem deliverReaches {session : SessionId} {id : RequestId} (line : Text)
    (owned : l.owners[id.index]? = some session) (waits : l.requests.state id = .waiting) :
    (l.requests.deliver session line).2.state id = .answered line := by
  rw [handedState kept.registered session line owned, if_pos rfl, waits]
  rfl

theorem keptHanded {session : SessionId} {id : RequestId} (line : Text)
    (newest : newest? l.owners session = some id) (waits : l.requests.state id = .waiting) :
    Kept { l with
      requests := (l.requests.deliver session line).2, handed := l.handed ++ [(id, line)] } := by
  have owned := newestOwner newest
  have inside : id.index < l.owners.length := (List.getElem?_eq_some_iff.mp owned).1
  have account := kept.account id inside
  rw [waits] at account
  obtain ⟨unhanded, unfound, undropped⟩ := by simpa only [Account, Ledger.Mentions, not_or] using account
  refine ⟨?_, fun other mentioned => ?_, fun other before => ?_, fun other result listed => ?_, ?_,
    kept.foundOnce⟩
  · exact registeredStill kept.registered (m := .deliver session line) rfl
  · by_cases same : other = id
    · exact same ▸ inside
    · refine kept.known other ?_
      simpa only [Ledger.Mentions, listedAdded same] using mentioned
  · by_cases same : other = id
    · subst same
      change Account _ other ((l.requests.deliver session line).2.state other)
      rw [deliverReaches kept line owned waits]
      exact ⟨List.mem_append_right _ (List.mem_singleton_self _), unfound, undropped⟩
    · have stays := deliverElsewhere kept line fun _ there =>
        same (Option.some.inj (there.symm.trans newest))
      change Account _ other ((l.requests.deliver session line).2.state other)
      rw [stays]
      refine accountAlike (kept.account other before) (fun line => ?_) Iff.rfl Iff.rfl
      simp [same]
  · have found := kept.genuine other result listed
    cases result with
    | ok seen => exact List.mem_append_left _ found
    | error e =>
      refine ⟨found.1, fun mem => found.2 ?_⟩
      rw [listedAdded] at mem
      · exact mem
      · rintro rfl
        exact unfound (List.mem_map_of_mem listed)
  · exact onceAdded kept.handedOnce unhanded line

theorem keptDeliver (session : SessionId) (line : Text) : Kept (l.move (.deliver session line)) := by
  cases pending : l.requests.hasPending session with
  | false =>
    have refused := (deliverTaken l.requests session line).trans pending
    refine keptSilent kept ⟨by simp [hands, refused], rfl, rfl⟩ (fun id inside => .inl ?_) (.inl rfl)
    exact deliverElsewhere kept line fun there => by simp [pending] at there
  | true =>
    obtain ⟨id, newest, owned, waits⟩ := pendingNewest kept pending
    have taken : hands l (.deliver session line) = [(id, line)] := by
      simp [hands, deliverTaken, pending, newest]
    have same : l.move (.deliver session line) =
        { l with
          requests := (l.requests.deliver session line).2, handed := l.handed ++ [(id, line)] } := by
      simp [Ledger.move, taken, finds, drops, RequestMove.makes, RequestMove.run]
    rw [same]
    exact keptHanded kept line newest waits

theorem keptFound {id : RequestId} {result : Except InputError Text}
    (inside : id.index < l.owners.length) (genuine : Genuine l id result)
    (unfound : id ∉ l.results.map Prod.fst) :
    Kept { l with requests := l.requests.setState id .closed, results := l.results ++ [(id, result)] } := by
  refine ⟨?_, fun other mentioned => ?_, fun other before => ?_, fun other result listed => ?_,
    kept.handedOnce, ?_⟩
  · exact registeredStill kept.registered (m := .drop id) rfl
  · by_cases same : other = id
    · exact same ▸ inside
    · refine kept.known other ?_
      simpa only [Ledger.Mentions, listedAdded same] using mentioned
  · change Account _ other ((l.requests.setState id .closed).state other)
    rw [stateClosed]
    by_cases same : other = id
    · rw [if_pos same]
      exact .inl (List.mem_map.mpr ⟨_, List.mem_append_right _ (List.mem_singleton_self _), same.symm⟩)
    · rw [if_neg same]
      exact accountAlike (kept.account other before) (fun _ => Iff.rfl) (listedAdded same) Iff.rfl
  · rcases List.mem_append.mp listed with before | new
    · exact kept.genuine other result before
    · cases List.mem_singleton.mp new
      exact genuine
  · exact onceAdded kept.foundOnce unfound result

theorem keptPoll (id : RequestId) : Kept (l.move (.poll id)) := by
  have silent (result : RequestResult) (still : l.requests.poll id = (result, l.requests))
      (nothing : finds l.requests (.poll id) = []) : Kept (l.move (.poll id)) := by
    refine keptSilent kept ⟨rfl, nothing, rfl⟩ (fun other _ => .inl ?_) (.inl rfl)
    exact congrArg (fun p => p.2.state other) still
  have ends (result : Except InputError Text) (live : l.requests.state id ≠ .closed)
      (closed : (l.requests.poll id).2 = l.requests.setState id .closed)
      (found : finds l.requests (.poll id) = [(id, result)])
      (account : Genuine l id result ∧ id ∉ l.results.map Prod.fst) : Kept (l.move (.poll id)) := by
    have same : l.move (.poll id) =
        { l with
          requests := l.requests.setState id .closed, results := l.results ++ [(id, result)] } := by
      simp [Ledger.move, found, hands, drops, RequestMove.makes, RequestMove.run, closed]
    rw [same]
    exact keptFound kept (kept.registered.counted ▸ knownState l.requests live) account.1 account.2
  have account := kept.account id
  cases state : l.requests.state id with
  | waiting => exact silent .pending (by simp [Requests.poll, state]) (by simp [finds, Requests.poll, state])
  | closed => exact silent .closed (by simp [Requests.poll, state]) (by simp [finds, Requests.poll, state])
  | answered line =>
    have live : l.requests.state id ≠ .closed := by simp [state]
    rw [state] at account
    have ⟨handed, unfound, _⟩ := account (kept.registered.counted ▸ knownState l.requests live)
    exact ends (.ok line) live (by simp [Requests.poll, state]) (by simp [finds, Requests.poll, state])
      ⟨handed, unfound⟩
  | replaced =>
    have live : l.requests.state id ≠ .closed := by simp [state]
    rw [state] at account
    have silent := account (kept.registered.counted ▸ knownState l.requests live)
    obtain ⟨unhanded, unfound, _⟩ := by simpa only [Account, Ledger.Mentions, not_or] using silent
    exact ends (.error .superseded) live (by simp [Requests.poll, state])
      (by simp [finds, Requests.poll, state]) ⟨⟨rfl, unhanded⟩, unfound⟩

theorem keptDrop (id : RequestId) : Kept (l.move (.drop id)) := by
  by_cases inside : id.index < l.owners.length
  · have same : l.move (.drop id) =
        { l with requests := l.requests.setState id .closed, dropped := l.dropped ++ [id] } := by
      simp [Ledger.move, finds, hands, drops, inside, RequestMove.makes, RequestMove.run, Requests.abandon]
    rw [same]
    refine ⟨?_, fun other mentioned => ?_, fun other before => ?_, kept.genuine, kept.handedOnce,
      kept.foundOnce⟩
    · exact registeredStill kept.registered (m := .drop id) rfl
    · by_cases equal : other = id
      · exact equal ▸ inside
      · refine kept.known other ?_
        simpa only [Ledger.Mentions, List.mem_append, List.mem_singleton, equal, or_false] using mentioned
    · change Account _ other ((l.requests.setState id .closed).state other)
      rw [stateClosed]
      by_cases equal : other = id
      · rw [if_pos equal]
        exact .inr (List.mem_append_right _ (List.mem_singleton.mpr equal))
      · rw [if_neg equal]
        refine accountAlike (kept.account other before) (fun _ => Iff.rfl) Iff.rfl ?_
        simp [equal]
  · refine keptSilent kept ⟨rfl, rfl, by simp [drops, inside]⟩ (fun other before => .inl ?_) (.inl rfl)
    refine (stateClosed l.requests id other).trans (if_neg ?_)
    rintro rfl
    exact inside before

theorem keptMove (m : RequestMove) : Kept (l.move m) := by
  cases m with
  | await session => exact keptAwait kept session
  | poll id => exact keptPoll kept id
  | drop id => exact keptDrop kept id
  | deliver session line => exact keptDeliver kept session line
  | hasPending session => exact keptSilent kept ⟨rfl, rfl, rfl⟩ (fun id inside => .inl rfl) (.inl rfl)
  | cancel session => exact keptCancel kept session

theorem keptAfter (moves : List RequestMove) : Kept (l.after moves) := by
  induction moves generalizing l with
  | nil => exact kept
  | cons m later ih => exact ih (keptMove kept m)

/- The story of a request is what is done in its session and by its command, in the order of these
things, and nothing else. -/
theorem storyAfter {session : SessionId} {id : RequestId} (owned : l.owners[id.index]? = some session)
    (later : List RequestMove) :
    (l.after later).requests.state id =
      (later.filterMap (turn? session id)).foldl fate (l.requests.state id) := by
  induction later generalizing l with
  | nil => rfl
  | cons m later ih =>
    have inside := (List.getElem?_eq_some_iff.mp owned).1
    have still : (l.move m).owners[id.index]? = some session := by
      rw [← owned]
      exact List.getElem?_append_left inside
    refine (ih (keptMove kept m) still).trans ?_
    change List.foldl fate ((m.run l.requests).state id) _ = _
    rw [moveState kept.registered m owned, List.filterMap_cons]
    cases turn? session id m <;> rfl

end Moves

theorem answeredStays {line : Text} {turns : List Turn}
    (left : ∀ t ∈ turns, t ≠ .looked ∧ t ≠ .dropped) :
    turns.foldl fate (.answered line) = .answered line := by
  induction turns with
  | nil => rfl
  | cons t later ih =>
    obtain ⟨unlooked, undropped⟩ := left t List.mem_cons_self
    have still : fate (.answered line) t = .answered line := by
      cases t <;> simp_all [fate]
    rw [List.foldl_cons, still]
    exact ih fun t mem => left t (List.mem_cons_of_mem _ mem)

theorem leftAlone {session : SessionId} {id : RequestId} {later : List RequestMove}
    (alone : .poll id ∉ later ∧ .drop id ∉ later) :
    ∀ t ∈ later.filterMap (turn? session id), t ≠ .looked ∧ t ≠ .dropped := by
  intro t mem
  obtain ⟨m, listed, turn⟩ := List.mem_filterMap.mp mem
  unfold turn? at turn
  constructor <;> rintro rfl <;> split at turn <;> simp_all

theorem emptyAfter {l : Ledger} {session : SessionId}
    (empty : l.requests.pending.get? session = none) {later : List RequestMove}
    (other : .await session ∉ later) : (l.after later).requests.pending.get? session = none := by
  induction later generalizing l with
  | nil => exact empty
  | cons m later ih =>
    rw [List.mem_cons, not_or] at other
    exact ih (l := l.move m) (emptyStays empty (Ne.symm other.1)) other.2

structure Faithful (l : Ledger) : Prop where
  taken : ∀ session line, (l.requests.deliver session line).1 = l.requests.hasPending session
  refused : ∀ session line, l.requests.hasPending session = false →
    ∀ id, (l.move (.deliver session line)).requests.state id = l.requests.state id
  reaches : ∀ session line, l.requests.hasPending session = true →
    ∃ id, newest? l.owners session = some id ∧
      (∀ later, .poll id ∉ later ∧ .drop id ∉ later →
        ((l.move (.deliver session line)).after later).look id = .line line) ∧
      ∀ other, other ≠ id →
        (l.move (.deliver session line)).requests.state other = l.requests.state other
  emptied : ∀ session line later, .await session ∉ later →
    ((l.move (.deliver session line)).after later).requests.hasPending session = false
  superseded : ∀ session id, l.owners[id.index]? = some session → newest? l.owners session ≠ some id →
    id ∉ l.handed.map Prod.fst → id ∉ l.dropped →
    l.look id = .error .superseded ∨ (id, .error .superseded) ∈ l.results
  foundOnce : (l.results.map Prod.fst).Nodup
  handedOnce : (l.handed.map Prod.fst).Nodup
  noneMade : ∀ id line, (id, .ok line) ∈ l.results → (id, line) ∈ l.handed
  noneLost : ∀ id line, (id, line) ∈ l.handed →
    l.look id = .line line ∨ (id, .ok line) ∈ l.results ∨ id ∈ l.dropped
  apart : ∀ session later, ((l.move (.await session)).after later).requests.state
      (l.requests.await session).1 =
    (later.filterMap (turn? session (l.requests.await session).1)).foldl fate .waiting

theorem lookState {l : Ledger} {id : RequestId} :
    l.look id = match l.requests.state id with
      | .waiting => .pending
      | .answered line => .line line
      | .replaced => .error .superseded
      | .closed => .closed := by
  unfold Ledger.look Requests.poll
  cases l.requests.state id <;> rfl

theorem faithfulKept {l : Ledger} (kept : Kept l) : Faithful l where
  taken := deliverTaken l.requests
  refused session line idle id := deliverElsewhere kept line fun there => by simp [idle] at there
  reaches session line pending := by
    obtain ⟨id, newest, owned, waits⟩ := pendingNewest kept pending
    refine ⟨id, newest, fun later alone => ?_, fun other different => ?_⟩
    · have still : (l.move (.deliver session line)).owners[id.index]? = some session := by
        rw [← owned]
        exact List.getElem?_append_left (List.getElem?_eq_some_iff.mp owned).1
      have answered : (l.move (.deliver session line)).requests.state id = .answered line :=
        deliverReaches kept line owned waits
      rw [lookState, storyAfter (keptMove kept _) still, answered, answeredStays (leftAlone alone)]
    · exact deliverElsewhere kept line fun _ there =>
        different (Option.some.inj (there.symm.trans newest))
  emptied session line later other := by
    have empty : (l.move (.deliver session line)).requests.pending.get? session = none :=
      (deliverPending l.requests session line session).trans (if_pos rfl)
    unfold Requests.hasPending
    rw [emptyAfter empty other]
    rfl
  superseded session id owned older unhanded undropped := by
    have inside := (List.getElem?_eq_some_iff.mp owned).1
    have account := kept.account id inside
    rw [lookState]
    cases state : l.requests.state id with
    | waiting => exact absurd (onlyPending kept owned state).2 older
    | answered line =>
      rw [state] at account
      exact absurd (List.mem_map_of_mem account.1) unhanded
    | replaced => exact .inl rfl
    | closed =>
      rw [state] at account
      obtain ⟨⟨_, result⟩, listed, rfl⟩ := List.mem_map.mp (account.resolve_right undropped)
      have genuine := kept.genuine _ result listed
      cases result with
      | ok line => exact absurd (List.mem_map_of_mem genuine) unhanded
      | error e => exact .inr (genuine.1 ▸ listed)
  foundOnce := kept.foundOnce
  handedOnce := kept.handedOnce
  noneMade id line listed := kept.genuine id (.ok line) listed
  noneLost id line handed := by
    have mentioned : id ∈ l.handed.map Prod.fst := List.mem_map_of_mem handed
    have account := kept.account id (kept.known id (.inl mentioned))
    rw [lookState]
    cases state : l.requests.state id with
    | waiting | replaced =>
      rw [state] at account
      exact absurd (.inl mentioned) account
    | answered other =>
      rw [state] at account
      exact .inl (congrArg RequestResult.line (onceSame kept.handedOnce account.1 handed))
    | closed =>
      rw [state] at account
      refine .inr (account.imp_left fun found => ?_)
      obtain ⟨⟨_, result⟩, listed, rfl⟩ := List.mem_map.mp found
      have genuine := kept.genuine _ result listed
      cases result with
      | ok other => exact onceSame kept.handedOnce genuine handed ▸ listed
      | error e => exact absurd mentioned genuine.2
  apart session later := by
    have moved := keptMove kept (.await session)
    have number : (l.requests.await session).1 = ⟨l.owners.length⟩ :=
      congrArg RequestId.mk kept.registered.counted
    have owned : (l.move (.await session)).owners[(l.requests.await session).1.index]? = some session := by
      rw [number]
      exact List.getElem?_concat_length
    rw [storyAfter moved owned]
    exact congrArg (List.foldl fate · _) (newWaits l.requests session)

theorem linesKept (moves : List RequestMove) : Faithful (Ledger.after {} moves) :=
  faithfulKept (keptAfter keptStart moves)

end ConsoleShell.LineKeeping
