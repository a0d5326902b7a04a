import ConsoleShell.Proofs.Cancellation
import Mathlib.Data.List.Induction

/-! Requests whose command has gone away. Such a request stands in the place of its session until a newer
request, a line or a cancellation comes upon it. Lines pass it by and nothing counts as pending, but a newer
request is said to replace it, and to take it away counts as a cancellation. So what operations say of a
session agrees exactly where no such request stands. -/
namespace ConsoleShell.AbandonedRequests
open LineKeeping (deliverTaken pendingIff)
open RequestTurns
open Shell (Reachable)

def after (moves : List RequestMove) : Requests := moves.foldl RequestMove.run .empty

def owners (moves : List RequestMove) : List SessionId := moves.flatMap RequestMove.makes

def warnings (r : Requests) (session : SessionId) : List Text :=
  if (r.await session).2.1 then [Requests.replacementWarning session] else []

/- A request stands in the place of its session: nothing was done there since it was made, but `later` was done
elsewhere. -/
def Stands (moves : List RequestMove) (session : SessionId) (id : RequestId) (later : List RequestMove) : Prop :=
  ∃ before, moves = before ++ .await session :: later ∧ id = ⟨(owners before).length⟩ ∧
    ∀ m ∈ later, ¬ Touches session m

def Live (moves : List RequestMove) (session : SessionId) : Prop :=
  ∃ id later, Stands moves session id later ∧ .drop id ∉ later

def Abandoned (moves : List RequestMove) (session : SessionId) : Prop :=
  ∃ id later, Stands moves session id later ∧ .drop id ∈ later

def Agree (r : Requests) (session : SessionId) : Prop :=
  (Requests.replacementWarning session ∈ warnings r session ↔ r.hasPending session = true) ∧
    ((r.cancel session).1 = true ↔ r.hasPending session = true)

instance (r : Requests) (session : SessionId) : Decidable (Agree r session) :=
  inferInstanceAs (Decidable (_ ∧ _))

variable {moves later : List RequestMove} {m : RequestMove} {session : SessionId} {id : RequestId}

theorem warnedIff (r : Requests) (session : SessionId) :
    Requests.replacementWarning session ∈ warnings r session ↔ (r.pending.get? session).isSome = true := by
  have warns : (r.await session).2.1 = (r.pending.get? session).isSome := rfl
  unfold warnings
  rw [warns]
  split <;> simp_all

theorem cancelTaken (r : Requests) (session : SessionId) :
    (r.cancel session).1 = (r.pending.get? session).isSome := by
  unfold Requests.cancel
  cases r.pending.get? session <;> rfl

theorem agreeIff (r : Requests) (session : SessionId) :
    Agree r session ↔ ∀ id, r.pending.get? session = some id → r.state id = .waiting := by
  unfold Agree
  rw [warnedIff, cancelTaken, and_self, pendingIff, Option.isSome_iff_exists]
  constructor
  · intro agree id found
    obtain ⟨other, there, waits⟩ := agree.mp ⟨id, found⟩
    cases found.symm.trans there
    exact waits
  · intro wait
    exact exists_congr fun id => (and_iff_left_of_imp (wait id)).symm

theorem afterAdded (moves : List RequestMove) (m : RequestMove) : after (moves ++ [m]) = m.run (after moves) := by
  simp [after]

theorem registeredAfter (moves : List RequestMove) : Registered (after moves) (owners moves) := by
  induction moves using List.reverseRecOn with
  | nil => exact registeredEmpty
  | append_singleton moves m ih =>
    rw [afterAdded, owners, List.flatMap_append, List.flatMap_singleton]
    exact registeredMove ih m

theorem standsAdded : Stands (moves ++ [m]) session id later ↔
    m = .await session ∧ id = ⟨(owners moves).length⟩ ∧ later = [] ∨
      ¬ Touches session m ∧ ∃ earlier, later = earlier ++ [m] ∧ Stands moves session id earlier := by
  constructor
  · rintro ⟨before, whole, number, elsewhere⟩
    rcases List.eq_nil_or_concat later with rfl | ⟨earlier, last, rfl⟩
    · obtain ⟨rfl, same⟩ := List.append_inj' whole rfl
      cases same
      exact .inl ⟨rfl, number, rfl⟩
    · rw [List.concat_eq_append] at whole elsewhere ⊢
      have cut : moves ++ [m] = (before ++ .await session :: earlier) ++ [last] := by simpa using whole
      obtain ⟨rfl, same⟩ := List.append_inj' cut rfl
      cases same
      obtain ⟨others, untouched⟩ := List.forall_mem_append.mp elsewhere
      exact .inr ⟨untouched m List.mem_cons_self, earlier, rfl, before, rfl, number, others⟩
  · rintro (⟨rfl, number, rfl⟩ | ⟨untouched, earlier, rfl, before, rfl, number, others⟩)
    · exact ⟨moves, rfl, number, by simp⟩
    · exact ⟨before, by simp, number, eachAdded others untouched⟩

theorem standsIff (moves : List RequestMove) (session : SessionId) (id : RequestId) :
    (after moves).pending.get? session = some id ↔ ∃ later, Stands moves session id later := by
  induction moves using List.reverseRecOn with
  | nil =>
    refine iff_of_false (fun found => nomatch found) ?_
    rintro ⟨later, before, whole, -⟩
    simp at whole
  | append_singleton moves m ih =>
    simp only [afterAdded, placeAfter, standsAdded]
    rw [(registeredAfter moves).counted]
    by_cases made : m = .await session
    · subst made
      have touches : Touches session (.await session) := rfl
      simp [touches, eq_comm]
    · by_cases touches : Touches session m
      · simp [made, touches]
      · simp [made, touches, ih]

theorem standingWaits (stands : Stands moves session id later) :
    (after moves).state id = .waiting ↔ .drop id ∉ later := by
  induction moves using List.reverseRecOn generalizing later with
  | nil =>
    obtain ⟨before, whole, -⟩ := stands
    simp at whole
  | append_singleton moves m ih =>
    have registered := registeredAfter moves
    rw [afterAdded]
    rcases standsAdded.mp stands with ⟨rfl, rfl, rfl⟩ | ⟨untouched, earlier, rfl, before⟩
    · rw [← registered.counted]
      exact iff_of_true (newWaits (after moves) session) List.not_mem_nil
    · have owned := pendingOwned registered ((standsIff moves session id).mpr ⟨earlier, before⟩)
      rw [moveState registered m owned, List.mem_append, not_or, ← ih before, List.mem_singleton]
      cases m with
      | await other | deliver other line | cancel other =>
        have elsewhere : session ≠ other := Ne.symm untouched
        simp [turn?, elsewhere]
      | hasPending other => simp [turn?]
      | poll other | drop other =>
        by_cases same : id = other
        · cases state : (after moves).state id <;> simp [turn?, same, fate]
        · simp [turn?, same]

theorem shellAfter {s : Shell} (reachable : Reachable s) : ∃ moves, s.requests = after moves := by
  induction reachable with
  | start made =>
    obtain ⟨registry, rfl⟩ := Shell.registerElsewhere made
    exact ⟨[], rfl⟩
  | step before move ih =>
    obtain ⟨moves, same⟩ := ih
    obtain ⟨more, next⟩ := Cancellation.movedStep before move
    exact ⟨moves ++ more, by rw [next, same, after, after, List.foldl_append]⟩

theorem pendingLive (moves : List RequestMove) (session : SessionId) :
    (after moves).hasPending session = true ↔ Live moves session := by
  rw [pendingIff]
  constructor
  · rintro ⟨id, found, waits⟩
    obtain ⟨later, stands⟩ := (standsIff moves session id).mp found
    exact ⟨id, later, stands, (standingWaits stands).mp waits⟩
  · rintro ⟨id, later, stands, stayed⟩
    exact ⟨id, (standsIff moves session id).mpr ⟨later, stands⟩, (standingWaits stands).mpr stayed⟩

theorem placeTaken (moves : List RequestMove) (session : SessionId) :
    ((after moves).pending.get? session).isSome = true ↔ Live moves session ∨ Abandoned moves session := by
  simp only [Option.isSome_iff_exists, standsIff]
  constructor
  · rintro ⟨id, later, stands⟩
    by_cases gone : .drop id ∈ later
    · exact .inr ⟨id, later, stands, gone⟩
    · exact .inl ⟨id, later, stands, gone⟩
  · rintro (⟨id, later, stands, -⟩ | ⟨id, later, stands, -⟩)
    · exact ⟨id, later, stands⟩
    · exact ⟨id, later, stands⟩

theorem agreeAfter (moves : List RequestMove) (session : SessionId) :
    Agree (after moves) session ↔ ¬ Abandoned moves session := by
  rw [agreeIff]
  constructor
  · rintro waits ⟨id, later, stands, gone⟩
    exact (standingWaits stands).mp (waits id ((standsIff moves session id).mpr ⟨later, stands⟩)) gone
  · intro intact id found
    obtain ⟨later, stands⟩ := (standsIff moves session id).mp found
    exact (standingWaits stands).mpr fun gone => intact ⟨id, later, stands, gone⟩

theorem liveApart (live : Live moves session) : ¬ Abandoned moves session := by
  rw [← agreeAfter, agreeIff]
  obtain ⟨id, found, waits⟩ := (pendingIff (after moves) session).mp ((pendingLive moves session).mpr live)
  intro other there
  cases found.symm.trans there
  exact waits

/- Nothing that is done in its place leaves an abandoned request there, and elsewhere one becomes so only when
its command goes away. -/
theorem abandonedAdded (moves : List RequestMove) (m : RequestMove) (session : SessionId) :
    Abandoned (moves ++ [m]) session ↔ ¬ Touches session m ∧
      (Abandoned moves session ∨ ∃ id later, Stands moves session id later ∧ m = .drop id) := by
  constructor
  · rintro ⟨id, since, stands, gone⟩
    rcases standsAdded.mp stands with ⟨-, -, rfl⟩ | ⟨untouched, later, rfl, before⟩
    · exact absurd gone List.not_mem_nil
    · refine ⟨untouched, (List.mem_append.mp gone).imp (fun old => ⟨id, later, before, old⟩) fun new => ?_⟩
      exact ⟨id, later, before, (List.mem_singleton.mp new).symm⟩
  · rintro ⟨untouched, ⟨id, later, stands, gone⟩ | ⟨id, later, stands, rfl⟩⟩
    · exact ⟨id, later ++ [m], standsAdded.mpr (.inr ⟨untouched, later, rfl, stands⟩),
        List.mem_append_left _ gone⟩
    · exact ⟨id, later ++ [.drop id], standsAdded.mpr (.inr ⟨untouched, later, rfl, stands⟩),
        List.mem_append_right _ List.mem_cons_self⟩

theorem fallsApart (agree : Agree (after moves) session) (m : RequestMove) :
    ¬ Agree (m.run (after moves)) session ↔ ∃ id later, Stands moves session id later ∧ m = .drop id := by
  have intact : ¬ Abandoned moves session := (agreeAfter moves session).mp agree
  rw [← afterAdded, agreeAfter, not_not, abandonedAdded, or_iff_right intact]
  refine and_iff_right_of_imp ?_
  rintro ⟨id, later, -, rfl⟩
  exact not_false

theorem agreesAgain (disagree : ¬ Agree (after moves) session) (m : RequestMove) :
    Agree (m.run (after moves)) session ↔ Touches session m := by
  have abandoned : Abandoned moves session := not_not.mp fun intact =>
    disagree ((agreeAfter moves session).mpr intact)
  rw [← afterAdded, agreeAfter, abandonedAdded, and_iff_left (.inl abandoned), not_not]

structure Verdicts (moves : List RequestMove) (session : SessionId) : Prop where
  pending : (after moves).hasPending session = true ↔ Live moves session
  taken : ∀ line, ((after moves).deliver session line).1 = true ↔ Live moves session
  warned : Requests.replacementWarning session ∈ warnings (after moves) session ↔
    Live moves session ∨ Abandoned moves session
  cancelled : ((after moves).cancel session).1 = true ↔ Live moves session ∨ Abandoned moves session
  apart : Live moves session → ¬ Abandoned moves session
  agree : Agree (after moves) session ↔ ¬ Abandoned moves session
  arises : Agree (after moves) session → ∀ m : RequestMove,
    (¬ Agree (m.run (after moves)) session ↔ ∃ id later, Stands moves session id later ∧ m = .drop id)
  lasts : ¬ Agree (after moves) session → ∀ m : RequestMove,
    (Agree (m.run (after moves)) session ↔ Touches session m)

theorem agreeUnlessAbandoned (moves : List RequestMove) (session : SessionId) : Verdicts moves session where
  pending := pendingLive moves session
  taken line := by rw [deliverTaken, pendingLive]
  warned := by rw [warnedIff, placeTaken]
  cancelled := by rw [cancelTaken, placeTaken]
  apart := liveApart
  agree := agreeAfter moves session
  arises := fallsApart
  lasts := agreesAgain

def interrupted : Shell := (Cancellation.reading.cancel ⟨0⟩).2.resume .event ⟨0⟩

theorem interruptedReachable : Reachable interrupted :=
  (Cancellation.readingReachable.step (.cancel _ ⟨0⟩)).step (.resume _ .event ⟨0⟩)

theorem agreeUnlessAbandonedInterrupted :
    Reachable interrupted ∧ interrupted.hasPendingInput ⟨0⟩ = false ∧
      Requests.replacementWarning ⟨0⟩ ∈ warnings interrupted.requests ⟨0⟩ ∧
      (interrupted.requests.cancel ⟨0⟩).1 = true ∧
      ∃ moves, interrupted.requests = after moves ∧ Abandoned moves ⟨0⟩ ∧
        ∀ line, Agree (after (moves ++ [.deliver ⟨0⟩ line])) ⟨0⟩ := by
  obtain ⟨moves, same⟩ := shellAfter interruptedReachable
  have verdicts : Verdicts moves ⟨0⟩ := agreeUnlessAbandoned moves ⟨0⟩
  have disagree : ¬ Agree interrupted.requests ⟨0⟩ := by decide +kernel
  rw [same] at disagree
  have abandoned : Abandoned moves ⟨0⟩ := not_not.mp fun intact => disagree (verdicts.agree.mpr intact)
  refine ⟨interruptedReachable, by decide +kernel, ?_, ?_, moves, same, abandoned, fun line => ?_⟩
  · exact same ▸ verdicts.warned.mpr (.inr abandoned)
  · exact same ▸ verdicts.cancelled.mpr (.inr abandoned)
  · rw [afterAdded]
    exact (verdicts.lasts disagree (.deliver ⟨0⟩ line)).mpr rfl

theorem abandonedCounted :
    let r := after [.await ⟨0⟩, .drop ⟨0⟩]
    r.hasPending ⟨0⟩ = false ∧
      warnings r ⟨0⟩ = ["Session 00000000: replaced a pending input request"] ∧
      (r.cancel ⟨0⟩).1 = true ∧ ¬ Agree r ⟨0⟩ := by
  decide +kernel

end ConsoleShell.AbandonedRequests
