import ConsoleShell.Proofs.Offstage

/-! Commands that have been asked to stop. The signal of a scope fires when the session is interrupted while
the scope is live, and when a newer command begins; and no signal that has fired is ever taken back. -/
namespace ConsoleShell.FiredScopes
open Foreground Captured
open ScopeSafety (firedScopes)
open Shell (Step Reachable)
open Offstage (Later)

variable {s t : Shell} {session : SessionId}

section Scopes

variable (scopes : Scopes Echo) (session : SessionId)

def retired : Signals (Callback Echo) :=
  match scopes.live.get? session with
  | none => scopes.signals.create.2
  | some scope => (scopes.signals.create.2.fire scope.signal).2

theorem replaceSignals : (scopes.replace session).2.2.signals = retired scopes session := by
  unfold Scopes.replace retired
  dsimp only
  cases scopes.live.get? session with
  | none => rfl
  | some scope =>
    dsimp only
    rw [firedScopes]

theorem grownReplace : Signals.Grown scopes.signals (scopes.replace session).2.2.signals := by
  rw [replaceSignals]
  unfold retired
  split
  · exact Signals.grownCreate _
  · exact (Signals.grownCreate _).trans (Signals.grownFire _ _)

theorem interruptLive {scope : Scope} (live : scopes.live.get? session = some scope) :
    (scopes.interrupt session).2.2.signals = (scopes.signals.fire scope.signal).2 := by
  have fired := firedScopes scopes scope.signal
  unfold Scopes.interrupt
  rw [live]
  dsimp only
  generalize scopes.fire scope.signal = fire at fired
  obtain ⟨first, duties, after⟩ := fire
  cases first <;> exact congrArg Scopes.signals fired

theorem grownInterrupt : Signals.Grown scopes.signals (scopes.interrupt session).2.2.signals := by
  cases live : scopes.live.get? session with
  | none =>
    unfold Scopes.interrupt
    rw [live]
    exact .refl _
  | some scope =>
    rw [interruptLive scopes session live]
    exact Signals.grownFire _ _

end Scopes

theorem uniqueReachable (h : Reachable s) : Unique s := by
  obtain ⟨begun, recorded⟩ := recordedReachable h
  exact (stagedRecorded recorded).unique

theorem taskFound (h : Reachable s) {id : TaskId} {task : Shell.Task} (listed : (id, task) ∈ s.tasks) :
    s.tasks.lookup id = some task := by
  cases found : s.tasks.lookup id with
  | none =>
    have absent := List.lookup_eq_none_iff.mp found _ listed
    simp at absent
  | some other => rw [oneTask (uniqueReachable h) (Shell.lookedUp found) listed]

theorem grownHalted {scopes : Scopes Echo} {r : Running} (halted : Halted s scopes r t) :
    t.scopes.signals = scopes.signals := by
  cases halted with
  | stays same stands unique => rw [same]
  | ends gone left unique => rw [gone, (finished _ _ _).1]

theorem grownStep (h : Reachable s) (step : Step s t) :
    Signals.Grown s.scopes.signals t.scopes.signals := by
  have sound := Shell.soundReachable h
  cases stepMoved sound step with
  | beside same => exact same.scopes ▸ .refl _
  | cancelled session scopes stands unique =>
    rw [scopes, silentCancel sound.scopes]
    exact grownInterrupt _ _
  | closed session scopes stands unique =>
    rw [scopes]
    rcases discarded sound.scopes session with ⟨-, same⟩ | ⟨scope, signals, -, rfl, same⟩
    · exact same.symm ▸ .refl _
    · rw [same]
      exact Signals.grownFire _ _
  | turn tie id same =>
    subst same
    cases resumeTurned sound (uniqueReachable h) tie id with
    | beside same => exact same.scopes ▸ .refl _
    | command r there own halted => exact grownHalted halted ▸ .refl _
    | line session text piped listed apart halted =>
      rw [grownHalted halted, (begunScopes sound session).2]
      exact grownReplace _ _

theorem firedLater (h : Reachable s) (later : Later s t) {signal : SignalId}
    (fired : s.scopes.signals.isFired signal = true) :
    Reachable t ∧ t.scopes.signals.isFired signal = true := by
  induction later with
  | now => exact ⟨h, fired⟩
  | step before move ih =>
    obtain ⟨reachable, still⟩ := ih
    exact ⟨reachable.step move, (grownStep reachable move).fired signal still⟩

inductive Stopping (s : Shell) (session : SessionId) : Shell → Prop where
  | interrupt : Stopping s session (s.cancel session).2
  | supersede {tie id scope} (begins : (session, scope) ∈ begins tie s id) :
      Stopping s session (s.resume tie id)

theorem begunLast {begun : List (SessionId × Scope)} {tie : Shell.Tie} {id : TaskId} {scope : Scope}
    (new : (session, scope) ∈ begins tie s id) :
    lastOf (begun ++ begins tie s id) session = some scope := by
  have one : begins tie s id = [(session, scope)] := by
    unfold begins at new ⊢
    split at new
    · split at new
      · contradiction
      · rename_i counted
        rw [if_neg counted, List.mem_singleton.mp new]
    · contradiction
  simp [one, lastOf]

theorem stoppingStep (stopping : Stopping s session t) : Step s t := by
  cases stopping with
  | interrupt => exact .cancel s session
  | supersede begins => exact .resume s _ _

theorem stoppingFires (h : Reachable s) {r : Running} (mem : r ∈ running s)
    (stopping : Stopping s r.session t) : t.scopes.signals.isFired r.scope.signal = true := by
  obtain ⟨begun, recorded⟩ := recordedReachable h
  have staged := stagedRecorded recorded
  obtain ⟨released, held⟩ := staged.held
  have grown := grownStep h (stoppingStep stopping)
  cases stopping with
  | interrupt =>
    rcases held.safe.accounted _ (held.begun r mem) with live | left | fired
    · have scopes : (s.cancel r.session).2.scopes = (s.scopes.cancel r.session).2.2 :=
        Shell.scopesChanged s _
      rw [scopes, silentCancel staged.sound.scopes, interruptLive _ _ live]
      exact Signals.firedAfter (held.safe.known _ (held.begun r mem))
    · exact absurd left (held.unreleased r mem)
    · exact grown.fired _ fired
  | @supersede tie id scope new =>
    obtain ⟨text, piped, found, given, -⟩ := begunNew new
    have other : r.task ≠ id := apartTask staged.unique (Shell.lookedUp found) rfl r mem
    have still := othersStay (resumeTurned staged.sound staged.unique tie id) mem other
    refine (oneForeground (recorded.turn tie id)).superseded r still fun last => ?_
    -- The new scope has a number of its own.
    rw [begunLast new] at last
    have old := held.safe.counted _ (held.begun r mem)
    rw [← Option.some.inj last, given, (begunScopes staged.sound _).1, (replaced _ _).1] at old
    dsimp only at old
    omega

end ConsoleShell.FiredScopes
