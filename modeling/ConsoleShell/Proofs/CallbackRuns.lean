import ConsoleShell.Proofs.Cascade
import ConsoleShell.Proofs.Registration

/-! Callbacks run exactly once. A call of one of the operations on scopes and signals may set callbacks
free, which register others, cancel and begin in their turn, all before the call returns. That
comes to an end, and then those that have run are the ones whose signal has fired. -/
namespace ConsoleShell.CallbackRuns
open ScopeSafety (firedScopes)
open Registration

variable {ν : Type}

def Within (bound : Nat) : Callback ν → Prop
  | .done => True
  | .note _ next => Within bound next
  | .register signal inner next => signal.index < bound ∧ Within bound inner ∧ Within bound next
  | .cancel _ _ next => Within bound next
  | .begin _ _ next => Within bound next

def DutyWithin (bound : Nat) : Duty ν → Prop
  | .run callback => Within bound callback
  | .report _ => True

/- Scopes, and what is still to be done before a call returns, as in a cascade. For the reasoning alone
every registration is kept; a duty that is the beginning of a registered callback bears the number
of the registration, and these numbers are listed as the callbacks begin to run. -/
structure Ledger (ν : Type) where
  scopes : Scopes ν := .empty
  duties : List (Option Nat × Duty ν) := []
  notes : List (Note ν) := []
  registered : List (Registration ν) := []
  ran : List Nat := []

def mark : List Nat → List (Duty ν) → List (Option Nat × Duty ν)
  | _, [] => []
  | [], duty :: rest => (none, duty) :: mark [] rest
  | n :: later, duty :: rest => (some n, duty) :: mark later rest

namespace Ledger

def cascade (w : Ledger ν) : Cascade ν := ⟨w.scopes, w.duties.map Prod.snd, w.notes⟩

def due (w : Ledger ν) : List Nat := w.duties.filterMap Prod.fst

def freedBy (w : Ledger ν) (signal : SignalId) : List Nat :=
  freed w.scopes.signals w.registered signal

def freedIn (w : Ledger ν) (session : SessionId) : List Nat :=
  ((w.scopes.live.get? session).map fun scope => w.freedBy scope.signal).getD []

/- What a change to the scopes sets free goes before everything that is to be done. -/
def put (w : Ledger ν) (numbers : List Nat) (change : List (Duty ν) × Scopes ν) : Ledger ν :=
  { w with scopes := change.2, duties := mark numbers change.1 ++ w.duties }

def begin (w : Ledger ν) (session : SessionId) : Ledger ν :=
  w.put (w.freedIn session) (w.scopes.replace session).2

def cancel (w : Ledger ν) (session : SessionId) : Ledger ν :=
  w.put (w.freedIn session) (w.scopes.interrupt session).2

def finish (w : Ledger ν) (session : SessionId) (id : ScopeId) : Ledger ν :=
  { w with scopes := (w.scopes.finish session id).2 }

def discard (w : Ledger ν) (session : SessionId) : Ledger ν :=
  match w.scopes.live.get? session with
  | none => w
  | some scope =>
    w.put (w.freedBy scope.signal)
      ({ w.scopes with live := w.scopes.live.erase session }.fire scope.signal).2

def fire (w : Ledger ν) (signal : SignalId) : Ledger ν :=
  w.put (w.freedBy signal) (w.scopes.fire signal).2

def create (w : Ledger ν) : Ledger ν :=
  { w with scopes := { w.scopes with signals := w.scopes.signals.create.2 } }

def register (w : Ledger ν) (signal : SignalId) (callback : Callback ν) : Ledger ν :=
  { w.put [w.registered.length] (w.scopes.enlist signal callback) with
    registered := w.registered ++ [⟨signal, callback, !w.scopes.signals.isFired signal⟩] }

def step (w : Ledger ν) : Ledger ν :=
  match w.duties with
  | [] => w
  | (number, duty) :: rest =>
    let begun := { w with ran := w.ran ++ number.toList }
    match duty with
    | .report note => { begun with duties := rest, notes := w.notes ++ [note] }
    | .run .done => { begun with duties := rest }
    | .run (.note label next) =>
      { begun with duties := (none, .run next) :: rest, notes := w.notes ++ [.ran label] }
    | .run (.register signal inner next) =>
      { begun with duties := (none, .run next) :: rest }.register signal inner
    | .run (.cancel session label next) =>
      let report : Note ν := .cancelled label (w.scopes.interrupt session).1
      { begun with duties := (none, .report report) :: (none, .run next) :: rest }.cancel session
    | .run (.begin session label next) =>
      let report : Note ν := .began label (w.scopes.replace session).1.id
      { begun with duties := (none, .report report) :: (none, .run next) :: rest }.begin session

def steps : Nat → Ledger ν → Ledger ν
  | 0, w => w
  | n + 1, w => steps n w.step

def settle (w : Ledger ν) : Ledger ν := w.steps w.cascade.weight

end Ledger

inductive Call (ν : Type) where
  | begin (session : SessionId)
  | cancel (session : SessionId)
  | finish (session : SessionId) (id : ScopeId)
  | discard (session : SessionId)
  | fire (signal : SignalId)
  | register (signal : SignalId) (callback : Callback ν)
  | create

namespace Call

def Fits (s : Scopes ν) : Call ν → Prop
  | register signal callback =>
    signal.index < s.signals.all.length ∧ Within s.signals.all.length callback
  | _ => True

def start (w : Ledger ν) : Call ν → Ledger ν
  | begin session => { w with notes := [] }.begin session
  | cancel session => { w with notes := [] }.cancel session
  | finish session id => { w with notes := [] }.finish session id
  | discard session => { w with notes := [] }.discard session
  | fire signal => { w with notes := [] }.fire signal
  | register signal callback => { w with notes := [] }.register signal callback
  | create => { w with notes := [] }.create

def result (s : Scopes ν) : Call ν → List (Note ν) × Scopes ν
  | begin session => (s.begin session).2
  | cancel session => (s.cancel session).2
  | finish session id => ([], (s.finish session id).2)
  | discard session => s.discard session
  | fire signal => (s.trigger signal).2
  | register signal callback => s.onCancel signal callback
  | create => ([], { s with signals := s.signals.create.2 })

end Call

/- What can be seen at any moment: when no call is under way, or from inside of a callback. -/
inductive Reaches : Ledger ν → Prop where
  | start : Reaches {}
  | call {w} (before : Reaches w) (idle : w.duties = []) (call : Call ν) (fits : call.Fits w.scopes) :
      Reaches (call.start w)
  | step {w} (before : Reaches w) : Reaches w.step

theorem markDuties (numbers : List Nat) (duties : List (Duty ν)) :
    (mark numbers duties).map Prod.snd = duties := by
  induction duties generalizing numbers with
  | nil => cases numbers <;> rfl
  | cons duty rest ih => cases numbers <;> simp [mark, ih]

theorem markNumbers {numbers : List Nat} {duties : List (Duty ν)}
    (each : numbers.length = duties.length) : (mark numbers duties).filterMap Prod.fst = numbers := by
  induction duties generalizing numbers with
  | nil =>
    rw [List.length_eq_zero_iff.mp each]
    rfl
  | cons duty rest ih =>
    cases numbers with
    | nil => contradiction
    | cons n later =>
      have tail : (mark later rest).filterMap Prod.fst = later := ih (by simpa using each)
      simp [mark, tail]

theorem cascadePut (w : Ledger ν) (numbers : List Nat) (change : List (Duty ν) × Scopes ν) :
    (w.put numbers change).cascade = ⟨change.2, change.1 ++ w.duties.map Prod.snd, w.notes⟩ := by
  simp [Ledger.put, Ledger.cascade, markDuties]

theorem cascadeRegister (w : Ledger ν) (signal : SignalId) (callback : Callback ν) :
    (w.register signal callback).cascade =
      ⟨(w.scopes.enlist signal callback).2,
        (w.scopes.enlist signal callback).1 ++ w.duties.map Prod.snd, w.notes⟩ :=
  cascadePut w _ _

theorem cascadeStep (w : Ledger ν) : w.step.cascade = w.cascade.step := by
  obtain ⟨s, duties, notes, registered, ran⟩ := w
  match duties with
  | [] => rfl
  | (number, .report note) :: rest | (number, .run .done) :: rest
  | (number, .run (.note label next)) :: rest => rfl
  | (number, .run (.register signal inner next)) :: rest => exact cascadeRegister _ _ _
  | (number, .run (.cancel session label next)) :: rest => exact cascadePut _ _ _
  | (number, .run (.begin session label next)) :: rest => exact cascadePut _ _ _

theorem cascadeSteps (n : Nat) (w : Ledger ν) : (w.steps n).cascade = w.cascade.steps n := by
  induction n generalizing w with
  | zero => rfl
  | succ n ih =>
    rw [Ledger.steps, ih, cascadeStep]
    rfl

theorem cascadeSettle (w : Ledger ν) : w.settle.cascade = w.cascade.settle :=
  cascadeSteps _ w

theorem settleEnds (w : Ledger ν) : w.settle.duties = [] := by
  have idle := congrArg Cascade.duties (cascadeSettle w)
  rw [Cascade.settled] at idle
  exact List.map_eq_nil_iff.mp idle

theorem runReturns {w : Ledger ν} {s : Scopes ν} {duties : List (Duty ν)}
    (started : w.cascade = ⟨s, duties, []⟩) :
    Cascade.run s duties = (w.settle.notes, w.settle.scopes) := by
  have ended := cascadeSettle w
  rw [started] at ended
  unfold Cascade.run
  dsimp only
  rw [← ended]
  rfl

theorem restReturns {w : Ledger ν} (idle : w.duties = []) (quiet : w.notes = []) :
    ([], w.scopes) = (w.settle.notes, w.settle.scopes) := by
  have started : w.cascade = ⟨w.scopes, [], []⟩ := by simp [Ledger.cascade, idle, quiet]
  rw [← runReturns started]
  unfold Cascade.run Cascade.settle
  rw [Cascade.stepsOver rfl]

theorem startReturns {w : Ledger ν} (idle : w.duties = []) (call : Call ν) :
    call.result w.scopes = ((call.start w).settle.notes, (call.start w).settle.scopes) := by
  have put (numbers : List Nat) (change : List (Duty ν) × Scopes ν) :
      ({ w with notes := [] }.put numbers change).cascade = ⟨change.2, change.1, []⟩ := by
    rw [cascadePut]
    simp [idle]
  cases call with
  | begin session => exact runReturns (put _ _)
  | cancel session => exact runReturns (put _ _)
  | finish session id =>
    exact restReturns (w := { w with notes := [] }.finish session id) idle rfl
  | discard session =>
    cases found : w.scopes.live.get? session with
    | none =>
      simp only [Call.start, Call.result, Ledger.discard, Scopes.discard, found]
      exact restReturns (w := { w with notes := [] }) idle rfl
    | some scope =>
      simp only [Call.start, Call.result, Ledger.discard, Scopes.discard, found]
      exact runReturns (put _ _)
  | fire signal => exact runReturns (put _ _)
  | register signal callback => exact runReturns (put [w.registered.length] _)
  | create => exact restReturns (w := { w with notes := [] }.create) idle rfl

structure Booked (w : Ledger ν) : Prop where
  tally : Tally w.scopes.signals w.registered (w.ran ++ w.due)
  own : ∀ n duty, (some n, duty) ∈ w.duties →
    ∃ r, w.registered[n]? = some r ∧ duty = .run r.callback
  within : ∀ e ∈ w.duties, DutyWithin w.scopes.signals.all.length e.2
  held : ∀ r ∈ w.registered, Within w.scopes.signals.all.length r.callback

theorem withinMore {bound more : Nat} (le : bound ≤ more) {callback : Callback ν}
    (h : Within bound callback) : Within more callback := by
  induction callback with
  | done => trivial
  | note _ _ ih | cancel _ _ _ ih | begin _ _ _ ih => exact ih h
  | register signal inner next innerIh nextIh =>
    exact ⟨Nat.lt_of_lt_of_le h.1 le, innerIh h.2.1, nextIh h.2.2⟩

theorem dutyWithinMore {bound more : Nat} (le : bound ≤ more) {duty : Duty ν}
    (h : DutyWithin bound duty) : DutyWithin more duty := by
  cases duty with
  | run callback => exact withinMore le h
  | report note => trivial

theorem firedDuties (s : Scopes ν) (signal : SignalId) :
    (s.fire signal).2.1 = ((s.signals.fire signal).1.getD []).map .run := by
  unfold Scopes.fire
  rcases s.signals.fire signal with ⟨_ | callbacks, signals⟩ <;> rfl

theorem markRuns {numbers : List Nat} {callbacks : List (Callback ν)}
    {given : Nat → Option (Callback ν)} (same : callbacks.map some = numbers.map given) :
    ∀ e ∈ mark numbers (callbacks.map .run), ∃ n c, e = (some n, .run c) ∧ given n = some c := by
  induction numbers generalizing callbacks with
  | nil =>
    have noCallbacks : callbacks = [] := by simpa using same
    subst noCallbacks
    exact fun e mem => nomatch mem
  | cons n later ih =>
    cases callbacks with
    | nil => simp at same
    | cons c rest =>
      obtain ⟨first, tail⟩ := List.cons.inj same
      intro e mem
      rcases List.mem_cons.mp mem with rfl | mem
      · exact ⟨n, c, rfl, first.symm⟩
      · exact ih tail e mem

section Steps

variable {w : Ledger ν} (h : Booked w)

include h

theorem bookedSilent {scopes : Scopes ν} (same : scopes.signals = w.scopes.signals) :
    Booked { w with scopes } := by
  refine ⟨?_, h.own, ?_, ?_⟩
  · rw [same]
    exact h.tally
  · rw [same]
    exact h.within
  · rw [same]
    exact h.held

theorem bookedCreate (live : Dict SessionId Scope) (lastId : Nat) :
    Booked { w with scopes := ⟨w.scopes.signals.create.2, live, lastId⟩ } := by
  have grown := (Signals.grownCreate w.scopes.signals).long
  refine ⟨tallyCreate h.tally, h.own, ?_, ?_⟩
  · exact fun e mem => dutyWithinMore grown (h.within e mem)
  · exact fun r mem => withinMore grown (h.held r mem)

theorem bookedFire {scopes : Scopes ν} (same : scopes.signals = w.scopes.signals)
    (signal : SignalId) : Booked (w.put (w.freedBy signal) (scopes.fire signal).2) := by
  have handed := freedCallbacks h.tally signal
  have numbers : (mark (w.freedBy signal) (scopes.fire signal).2.1).filterMap Prod.fst =
      w.freedBy signal := by
    refine markNumbers ?_
    rw [firedDuties, same]
    simpa [Ledger.freedBy] using (congrArg List.length handed).symm
  have runs : ∀ e ∈ mark (w.freedBy signal) (scopes.fire signal).2.1, ∃ n r,
      e = (some n, .run r.callback) ∧ w.registered[n]? = some r := by
    intro e mem
    rw [firedDuties, same] at mem
    obtain ⟨n, c, rfl, given⟩ := markRuns handed e mem
    obtain ⟨r, found, rfl⟩ := Option.map_eq_some_iff.mp given
    exact ⟨n, r, rfl, found⟩
  have signals : (scopes.fire signal).2.2.signals = (w.scopes.signals.fire signal).2 := by
    rw [firedScopes, ← same]
  have long : (scopes.fire signal).2.2.signals.all.length = w.scopes.signals.all.length := by
    rw [signals, Signals.longFire]
  refine ⟨?_, ?_, ?_, ?_⟩
  · have tally := tallyFire h.tally signal
    rw [List.append_assoc] at tally
    simp only [Ledger.put, Ledger.due, List.filterMap_append, numbers, signals]
    exact tally
  · intro n duty mem
    rcases List.mem_append.mp mem with new | old
    · obtain ⟨m, r, same, found⟩ := runs _ new
      cases same
      exact ⟨r, found, rfl⟩
    · exact h.own n duty old
  · simp only [Ledger.put, long]
    intro e mem
    rcases List.mem_append.mp mem with new | old
    · obtain ⟨m, r, rfl, found⟩ := runs _ new
      exact h.held r (List.mem_of_getElem? found)
    · exact h.within e old
  · simp only [Ledger.put, long]
    exact h.held

theorem bookedBegin (session : SessionId) : Booked (w.begin session) := by
  unfold Ledger.begin Ledger.freedIn Scopes.replace
  dsimp only
  cases found : w.scopes.live.get? session with
  | none => exact bookedCreate h _ _
  | some previous =>
    -- The signal of the new scope does not count among those that free callbacks wait for.
    have created := bookedCreate h (w.scopes.live.insert session
      ⟨⟨w.scopes.lastId + 1⟩, w.scopes.signals.create.1⟩) (w.scopes.lastId + 1)
    have fired := bookedFire created rfl previous.signal
    unfold Ledger.freedBy freed at fired
    rw [Signals.firedCreate] at fired
    exact fired

theorem bookedCancel (session : SessionId) : Booked (w.cancel session) := by
  unfold Ledger.cancel Ledger.freedIn Scopes.interrupt
  cases found : w.scopes.live.get? session with
  | none => exact h
  | some scope =>
    have fired := bookedFire h rfl scope.signal
    dsimp only
    split <;>
    · rename_i same
      rw [same] at fired
      exact fired

theorem bookedFinish (session : SessionId) (id : ScopeId) : Booked (w.finish session id) := by
  refine bookedSilent h ?_
  unfold Scopes.finish
  split <;> rfl

theorem bookedDiscard (session : SessionId) : Booked (w.discard session) := by
  unfold Ledger.discard
  split
  · exact h
  · refine bookedFire h ?_ _
    rfl

theorem bookedRegister {signal : SignalId} {callback : Callback ν}
    (known : signal.index < w.scopes.signals.all.length)
    (within : Within w.scopes.signals.all.length callback) :
    Booked (w.register signal callback) := by
  have owned : ∀ n duty, (some n, duty) ∈ w.duties → ∃ r,
      (w.registered ++ [⟨signal, callback, !w.scopes.signals.isFired signal⟩])[n]? = some r ∧
        duty = .run r.callback := by
    intro n duty mem
    obtain ⟨r, found, same⟩ := h.own n duty mem
    exact ⟨r, foundAdded.mpr (.inl found), same⟩
  unfold Ledger.register Scopes.enlist
  cases state : w.scopes.signals.isFired signal with
  | false =>
    rw [state] at owned
    have long := Signals.longQueue w.scopes.signals signal callback
    refine ⟨tallyQueue h.tally known state callback, owned, ?_, ?_⟩
    · simp only [Ledger.put, long, Bool.false_eq_true, if_false]
      exact h.within
    · simp only [Ledger.put, long, Bool.false_eq_true, if_false]
      exact eachAdded h.held within
  | true =>
    rw [state] at owned
    refine ⟨?_, ?_, ?_, eachAdded h.held within⟩
    · have tally := tallyAtOnce h.tally known state callback
      rw [List.append_assoc] at tally
      exact tally
    · intro n duty mem
      rcases List.mem_cons.mp mem with same | old
      · cases same
        exact ⟨_, foundAdded.mpr (.inr ⟨rfl, rfl⟩), rfl⟩
      · exact owned n duty old
    · intro e mem
      rcases List.mem_cons.mp mem with rfl | old
      · exact within
      · exact h.within e old

theorem bookedTaken {number : Option Nat} {duty : Duty ν} {rest : List (Option Nat × Duty ν)}
    (first : w.duties = (number, duty) :: rest) (left : List (Duty ν)) (notes : List (Note ν))
    (within : ∀ d ∈ left, DutyWithin w.scopes.signals.all.length d) :
    Booked { w with
      duties := left.map (fun d => (none, d)) ++ rest, notes, ran := w.ran ++ number.toList } := by
  have unmarked : (left.map fun d => ((none : Option Nat), d)).filterMap Prod.fst = [] := by
    simp [List.filterMap_map]
  have due : w.due = number.toList ++ rest.filterMap Prod.fst := by
    unfold Ledger.due
    rw [first]
    cases number <;> simp
  refine ⟨?_, ?_, ?_, h.held⟩
  · have tally := h.tally
    rw [due, ← List.append_assoc] at tally
    simpa [Ledger.due, unmarked] using tally
  · intro n d mem
    rcases List.mem_append.mp mem with mine | later
    · simp at mine
    · exact h.own n d (first ▸ List.mem_cons_of_mem _ later)
  · intro e mem
    rcases List.mem_append.mp mem with mine | later
    · obtain ⟨d, listed, rfl⟩ := List.mem_map.mp mine
      exact within d listed
    · exact h.within e (first ▸ List.mem_cons_of_mem _ later)

theorem bookedStep : Booked w.step := by
  obtain ⟨s, duties, notes, registered, ran⟩ := w
  match duties with
  | [] => exact h
  | (number, .report note) :: rest => exact bookedTaken h rfl [] _ (by simp)
  | (number, .run .done) :: rest => exact bookedTaken h rfl [] _ (by simp)
  | (number, .run (.note label next)) :: rest =>
    have within : Within _ next := h.within _ List.mem_cons_self
    exact bookedTaken h rfl [.run next] _ (by simpa [DutyWithin] using within)
  | (number, .run (.register signal inner next)) :: rest =>
    have within : _ ∧ Within _ inner ∧ Within _ next := h.within _ List.mem_cons_self
    have taken := bookedTaken h rfl [.run next] notes
      (by simpa [DutyWithin] using within.2.2)
    exact bookedRegister taken within.1 within.2.1
  | (number, .run (.cancel session label next)) :: rest =>
    have within : Within _ next := h.within _ List.mem_cons_self
    have taken := bookedTaken h rfl
      [.report (.cancelled label (s.interrupt session).1), .run next] notes
      (by simpa [DutyWithin] using within)
    exact bookedCancel taken session
  | (number, .run (.begin session label next)) :: rest =>
    have within : Within _ next := h.within _ List.mem_cons_self
    have taken := bookedTaken h rfl
      [.report (.began label (s.replace session).1.id), .run next] notes
      (by simpa [DutyWithin] using within)
    exact bookedBegin taken session

end Steps

theorem bookedStart {w : Ledger ν} (h : Booked w) (call : Call ν) (fits : call.Fits w.scopes) :
    Booked (call.start w) := by
  have quiet : Booked { w with notes := [] } := ⟨h.tally, h.own, h.within, h.held⟩
  cases call with
  | begin session => exact bookedBegin quiet session
  | cancel session => exact bookedCancel quiet session
  | finish session id => exact bookedFinish quiet session id
  | discard session => exact bookedDiscard quiet session
  | fire signal => exact bookedFire quiet rfl signal
  | register signal callback => exact bookedRegister quiet fits.1 fits.2
  | create => exact bookedCreate quiet _ _

theorem bookedReaches {w : Ledger ν} (h : Reaches w) : Booked w := by
  induction h with
  | start => exact ⟨tallyEmpty, by simp, by simp, by simp⟩
  | call _ _ call fits ih => exact bookedStart ih call fits
  | step _ ih => exact bookedStep ih

theorem stepsReach {w : Ledger ν} (h : Reaches w) (n : Nat) : Reaches (w.steps n) := by
  induction n generalizing w with
  | zero => exact h
  | succ n ih => exact ih h.step

structure WellRun (w : Ledger ν) : Prop where
  atMostOnce : w.ran.Nodup
  onlyFired : ∀ n ∈ w.ran, ∃ r, w.registered[n]? = some r ∧ w.scopes.signals.isFired r.signal = true
  exactlyOnce : w.duties = [] → ∀ n r, w.registered[n]? = some r →
    w.ran.count n = if w.scopes.signals.isFired r.signal then 1 else 0
  inOrder : w.ran.Pairwise (InTurn w.registered)
  noneQueued : ∀ id signal, w.scopes.signals.get? id = some signal → signal.fired = true →
    signal.waiting = []
  own : ∀ n duty, (some n, duty) ∈ w.duties →
    ∃ r, w.registered[n]? = some r ∧ duty = .run r.callback
  atOnce : ∀ signal callback, w.scopes.signals.isFired signal = true →
    (w.register signal callback).duties = (some w.registered.length, .run callback) :: w.duties
  ends : w.settle.duties = []
  returns : w.duties = [] → ∀ call : Call ν, call.Fits w.scopes →
    let after := (call.start w).settle
    Reaches after ∧ after.duties = [] ∧ call.result w.scopes = (after.notes, after.scopes)

theorem ranCount {w : Ledger ν} (h : Booked w) (idle : w.duties = []) {n : Nat} {r : Registration ν}
    (found : w.registered[n]? = some r) :
    w.ran.count n = if w.scopes.signals.isFired r.signal then 1 else 0 := by
  have order : w.ran ++ w.due = w.ran := by simp [Ledger.due, idle]
  have free := h.tally.free n
  have once := h.tally.once
  rw [order] at free once
  split
  · rename_i fired
    rw [once.count, if_pos (free.mpr ⟨r, found, fired⟩)]
  · rename_i unfired
    refine List.count_eq_zero.mpr fun mem => ?_
    obtain ⟨other, same, fired⟩ := free.mp mem
    cases found.symm.trans same
    exact unfired fired

theorem callbacksRunOnce {w : Ledger ν} (h : Reaches w) : WellRun w := by
  have booked := bookedReaches h
  have part : w.ran.Sublist (w.ran ++ w.due) := List.sublist_append_left _ _
  refine ⟨booked.tally.once.sublist part, ?_, ?_, booked.tally.inTurn.sublist part,
    booked.tally.spent, booked.own, ?_, settleEnds w, ?_⟩
  · exact fun n mem => (booked.tally.free n).mp (part.subset mem)
  · exact fun idle n r found => ranCount booked idle found
  · intro signal callback fired
    simp [Ledger.register, Ledger.put, Scopes.enlist, fired, mark]
  · intro idle call fits
    exact ⟨stepsReach (h.call idle call fits) _, settleEnds _, startReturns idle call⟩

def nested : Ledger Unit :=
  let inner : Callback Unit := .register ⟨0⟩ (.note () .done) (.begin ⟨0⟩ () .done)
  let begun := (Call.begin ⟨0⟩).start {}
  let waiting := (Call.register ⟨0⟩ (.note () .done)).start ((Call.register ⟨0⟩ inner).start begun)
  ((Call.cancel ⟨0⟩).start waiting).settle

theorem nestedReaches : Reaches nested := by
  refine stepsReach (.call (.call (.call (.call .start rfl (.begin ⟨0⟩) trivial) rfl
    (.register ⟨0⟩ _) ?_) rfl (.register ⟨0⟩ _) ?_) rfl (.cancel ⟨0⟩) trivial) _
  · exact ⟨by decide, by decide, trivial, trivial⟩
  · exact ⟨by decide, trivial⟩

theorem callbacksRunOnceNested : Reaches nested ∧ nested.ran = [0, 2, 1] ∧ WellRun nested :=
  ⟨nestedReaches, by decide, callbacksRunOnce nestedReaches⟩

end ConsoleShell.CallbackRuns
