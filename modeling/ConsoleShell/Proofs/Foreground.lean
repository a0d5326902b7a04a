import ConsoleShell.Proofs.CommandTurns

/-! Foreground commands. Commands of one session may be under way at once and end in any order, but only
the one that began last is live: every other has been asked to stop, and what a command gives up
at its end is its own scope and no other. -/
namespace ConsoleShell.Foreground
open ScopeSafety Captured
open Shell (Sound Step)

variable {s t : Shell} {id : TaskId}

def begins (tie : Shell.Tie) (s : Shell) (id : TaskId) : List (SessionId × Scope) :=
  match s.tasks.lookup id with
  | some (.line session _ _) =>
    if (s.resume tie id).scopes.lastId = s.scopes.lastId then []
    else [(session, (s.scopes.begin session).1)]
  | _ => []

/- A shell, with the scopes that were begun for foreground commands so far, in this order. -/
inductive Recorded : Shell → List (SessionId × Scope) → Prop where
  | start {config s} (made : Shell.ofDeclarations config Builtin.all = .ok s) : Recorded s []
  | turn {s begun} (before : Recorded s begun) (tie id) :
      Recorded (s.resume tie id) (begun ++ begins tie s id)
  | move {s t begun} (before : Recorded s begun) (step : Step s t)
      (same : t.scopes.lastId = s.scopes.lastId) : Recorded t begun

structure Staged (s : Shell) (begun : List (SessionId × Scope)) : Prop where
  sound : Sound s
  unique : Unique s
  held : ∃ released, Held (running s) s.scopes begun released

theorem begunScopes (h : Sound s) (session : SessionId) :
    (s.scopes.begin session).1 = (s.scopes.replace session).1 ∧
      (s.scopes.begin session).2.2 = (s.scopes.replace session).2.2 := by
  rw [silentBegin h.scopes]
  exact ⟨rfl, rfl⟩

theorem lineBegins (h : Sound s) {tie : Shell.Tie} {session : SessionId} {text : Text}
    {piped : Option (List Text)} (listed : s.tasks.lookup id = some (.line session text piped))
    (halted : Halted (s.withdraw id) (s.scopes.begin session).2.2
      ⟨id, session, (s.scopes.begin session).1⟩ (s.resume tie id)) :
    begins tie s id = [(session, (s.scopes.begin session).1)] := by
  have count : (s.resume tie id).scopes.lastId = s.scopes.lastId + 1 := by
    have after : (s.scopes.begin session).2.2.lastId = s.scopes.lastId + 1 := by
      rw [(begunScopes h session).2]
      exact (replaced s.scopes session).2.2
    cases halted with
    | stays same stands unique => rw [same, after]
    | ends gone left unique => rw [gone, (finished _ _ _).2.1, after]
  unfold begins
  rw [listed]
  dsimp only
  rw [if_neg]
  omega

theorem besideBegins {tie : Shell.Tie} (same : Beside s (s.resume tie id)) : begins tie s id = [] := by
  unfold begins
  split
  · rw [if_pos (congrArg Scopes.lastId same.scopes)]
  · rfl

theorem commandBegins (unique : Unique s) {tie : Shell.Tie} {r : Running} (there : r ∈ running s)
    (own : r.task = id) : begins tie s id = [] := by
  unfold begins
  split
  · rename_i found
    exact absurd own (apartTask unique (Shell.lookedUp found) rfl r there)
  · rfl

theorem stagedTurn {begun : List (SessionId × Scope)} (staged : Staged s begun) (tie : Shell.Tie)
    (id : TaskId) : Staged (s.resume tie id) (begun ++ begins tie s id) := by
  have sound := Shell.soundResume staged.sound tie id
  obtain ⟨released, held⟩ := staged.held
  cases resumeTurned staged.sound staged.unique tie id with
  | beside same =>
    refine ⟨sound, same.unique staged.unique, released, ?_⟩
    rw [besideBegins same, List.append_nil, same.running, same.scopes]
    exact held
  | command r there own halted =>
    rw [commandBegins staged.unique there own, List.append_nil]
    have withdrawn := uniqueWithdraw staged.unique id
    have others (x : Running) : x ∈ running (s.withdraw id) ↔ x ∈ running s ∧ x ≠ r := by
      rw [runningWithdraw]
      refine and_congr_right fun mem => not_congr ⟨fun same => ?_, fun same => same ▸ own⟩
      exact oneRunning staged.unique mem there (same.trans own.symm)
    cases halted with
    | stays same stands unique =>
      refine ⟨sound, unique withdrawn, released, ?_⟩
      rw [same]
      refine heldMembers held fun x => ?_
      rw [stands, List.mem_append, others, List.mem_singleton]
      by_cases equal : x = r
      · simp [equal, there]
      · simp [equal]
    | ends gone left unique =>
      obtain ⟨later, held⟩ := heldFinish held there (running (s.resume tie id)) fun x => by
        rw [left, others]
      exact ⟨sound, unique withdrawn, later, gone ▸ held⟩
  | line session text piped listed apart halted =>
    rw [lineBegins staged.sound listed halted]
    have withdrawn := uniqueWithdraw staged.unique id
    have away := besideWithdraw apart
    have begunHeld := heldReplace held id session
    rw [← (begunScopes staged.sound session).1, ← (begunScopes staged.sound session).2] at begunHeld
    cases halted with
    | stays same stands unique =>
      refine ⟨sound, unique withdrawn, released, ?_⟩
      rw [same, stands, away.running]
      exact begunHeld
    | ends gone left unique =>
      have others (x : Running) : x ∈ running (s.resume tie id) ↔
          x ∈ running s ++ [⟨id, session, (s.scopes.begin session).1⟩] ∧
            x ≠ ⟨id, session, (s.scopes.begin session).1⟩ := by
        rw [left, away.running, List.mem_append, List.mem_singleton]
        constructor
        · exact fun mem => ⟨.inl mem, fun same => apart x mem (same ▸ rfl)⟩
        · exact fun ⟨either, other⟩ => either.resolve_right other
      obtain ⟨later, held⟩ := heldFinish begunHeld (List.mem_append_right _ List.mem_cons_self)
        (running (s.resume tie id)) others
      exact ⟨sound, unique withdrawn, later, gone ▸ held⟩

theorem stagedMove {begun : List (SessionId × Scope)} (staged : Staged s begun) (step : Step s t)
    (same : t.scopes.lastId = s.scopes.lastId) : Staged t begun := by
  have sound := Shell.soundStep staged.sound step
  obtain ⟨released, held⟩ := staged.held
  cases stepMoved staged.sound step with
  | beside apart =>
    refine ⟨sound, apart.unique staged.unique, released, ?_⟩
    rw [apart.running, apart.scopes]
    exact held
  | cancelled session scopes stands unique =>
    refine ⟨sound, unique staged.unique, released, ?_⟩
    rw [scopes, stands, silentCancel staged.sound.scopes]
    exact heldInterrupt held session
  | closed session scopes stands unique =>
    refine ⟨sound, unique staged.unique, released, ?_⟩
    rw [scopes, stands]
    exact heldDiscard held staged.sound.scopes session
  | turn tie id equal =>
    subst equal
    have turned := stagedTurn staged tie id
    have nobody : begins tie s id = [] := by
      unfold begins
      split
      · rw [if_pos same]
      · rfl
    rw [nobody, List.append_nil] at turned
    exact turned

theorem stagedRecorded {begun : List (SessionId × Scope)} (h : Recorded s begun) : Staged s begun := by
  induction h with
  | start made =>
    have sound := Shell.soundStart made
    obtain ⟨registry, rfl⟩ := Shell.registerElsewhere made
    have empty (session : SessionId) : (Scopes.empty : Scopes Echo).live.get? session = none := rfl
    refine ⟨sound, ⟨List.nodup_nil, fun _ mem => nomatch mem⟩, [], ?_⟩
    have safe := safeReaches (Reaches.start : Reaches ({} : World Echo))
    exact ⟨safe, fun _ mem => (nomatch mem), fun _ mem => (nomatch mem), fun _ mem => (nomatch mem),
      fun _ mem => (nomatch mem), fun session scope found => (nomatch found)⟩
  | turn before tie id ih => exact stagedTurn ih tie id
  | move before step same ih => exact stagedMove ih step same

theorem recordedReachable (h : Shell.Reachable s) : ∃ begun, Recorded s begun := by
  induction h with
  | start made => exact ⟨[], .start made⟩
  | step before move ih =>
    obtain ⟨begun, recorded⟩ := ih
    have sound := Shell.soundReachable before
    cases stepMoved sound move with
    | beside same => exact ⟨begun, .move recorded move (congrArg Scopes.lastId same.scopes)⟩
    | cancelled session scopes =>
      refine ⟨begun, .move recorded move ?_⟩
      obtain ⟨signals, same⟩ := interrupted (Shell.scopes _) session
      rw [scopes, silentCancel sound.scopes]
      rw [same]
    | closed session scopes =>
      refine ⟨begun, .move recorded move ?_⟩
      rw [scopes]
      rcases discarded sound.scopes session with ⟨-, same⟩ | ⟨scope, signals, found, fired, same⟩
      · rw [same]
      · rw [same]
    | turn tie id same =>
      subst same
      exact ⟨_, .turn recorded tie id⟩

def lastOf (begun : List (SessionId × Scope)) (session : SessionId) : Option Scope :=
  begun.reverse.lookup session

theorem lastLive {scopes : Scopes Echo} {begun : List (SessionId × Scope)}
    {released : List (SessionId × ScopeId)} (safe : Safe scopes begun released)
    {session : SessionId} {scope : Scope} (live : scopes.live.get? session = some scope) :
    lastOf begun session = some scope := by
  have listed := List.mem_reverse.mpr (safe.given session scope live)
  have ordered := List.pairwise_reverse.mpr safe.ordered
  unfold lastOf
  cases found : begun.reverse.lookup session with
  | none =>
    have other := List.lookup_eq_none_iff.mp found _ listed
    simp at other
  | some last =>
    obtain ⟨before, after, same, others⟩ := List.lookup_eq_some_iff.mp found
    rw [same] at listed ordered
    rcases List.mem_append.mp listed with first | rest
    · have other := others _ first
      simp at other
    · rcases List.mem_cons.mp rest with equal | later
      · cases equal
        rfl
      · have less := (List.pairwise_cons.mp (List.pairwise_append.mp ordered).2.1).1 _ later
        have most := safe.latest session scope live last
          (List.mem_reverse.mp (same ▸ List.mem_append_right _ List.mem_cons_self))
        exact absurd (Nat.lt_of_lt_of_le less most) (Nat.lt_irrefl _)

/- The command of a task that has its turn, and the scopes with which it goes on: those that there are,
or those with the scope that has just been begun for it. -/
inductive Turn (tie : Shell.Tie) (s : Shell) (r : Running) : Scopes Echo → Prop where
  | goesOn (there : r ∈ running s) : Turn tie s r s.scopes
  | begins (new : (r.session, r.scope) ∈ begins tie s r.task) :
      Turn tie s r (s.scopes.begin r.session).2.2

structure GivesUp (before after : Scopes Echo) (session : SessionId) (scope : Scope) : Prop where
  own : after.live.get? session ≠ some scope
  others : ∀ other kept, (other, kept) ≠ (session, scope) →
    (after.live.get? other = some kept ↔ before.live.get? other = some kept)
  signals : after.signals = before.signals

structure OneForeground (s : Shell) (begun : List (SessionId × Scope)) : Prop where
  /- A command under way has a scope that was begun for it and for no other. -/
  listed : ∀ r ∈ running s, (r.session, r.scope) ∈ begun
  apart : ∀ a ∈ running s, ∀ b ∈ running s, a.scope.id = b.scope.id → a = b
  superseded : ∀ r ∈ running s, lastOf begun r.session ≠ some r.scope →
    s.scopes.signals.isFired r.scope.signal = true
  holds : ∀ session scope, s.scopes.live.get? session = some scope →
    lastOf begun session = some scope ∧ ∃ r ∈ running s, r.session = session ∧ r.scope = scope
  ends : ∀ tie r scopes, Turn tie s r scopes → r ∉ running (s.resume tie r.task) →
    GivesUp scopes (s.resume tie r.task).scopes r.session r.scope
  waits : ∀ tie r scopes, Turn tie s r scopes → r ∈ running (s.resume tie r.task) →
    (s.resume tie r.task).scopes = scopes
  elsewhere : ∀ t, Step s t → ∀ r ∈ running s, r ∉ running t → ∃ tie, t = s.resume tie r.task

theorem begunNew {tie : Shell.Tie} {session : SessionId} {scope : Scope}
    (new : (session, scope) ∈ begins tie s id) :
    ∃ text piped, s.tasks.lookup id = some (.line session text piped) ∧
      scope = (s.scopes.begin session).1 ∧ (s.resume tie id).scopes.lastId ≠ s.scopes.lastId := by
  unfold begins at new
  split at new
  · rename_i found
    split at new
    · contradiction
    · rename_i counted
      have same := List.mem_singleton.mp new
      obtain ⟨rfl, given⟩ := Prod.mk.inj same
      exact ⟨_, _, found, given, counted⟩
  · contradiction

theorem turnHeld {begun : List (SessionId × Scope)} (staged : Staged s begun) {tie : Shell.Tie}
    {r : Running} {scopes : Scopes Echo} (turn : Turn tie s r scopes) :
    ∃ running begun released, r ∈ running ∧ Held running scopes begun released := by
  obtain ⟨released, held⟩ := staged.held
  cases turn with
  | goesOn there => exact ⟨running s, begun, released, there, held⟩
  | begins new =>
    obtain ⟨-, -, -, scope, -⟩ := begunNew new
    have replaced := heldReplace held r.task r.session
    rw [← (begunScopes staged.sound r.session).1, ← (begunScopes staged.sound r.session).2,
      ← scope] at replaced
    exact ⟨_, _, released, List.mem_append_right _ List.mem_cons_self, replaced⟩

theorem haltedEither {scopes : Scopes Echo} {r : Running}
    (halted : Halted (s.withdraw r.task) scopes r t) :
    (r ∈ running t ∧ t.scopes = scopes) ∨
      (r ∉ running t ∧ t.scopes = (scopes.finish r.session r.scope.id).2) := by
  cases halted with
  | stays same stands unique =>
    exact .inl ⟨stands ▸ List.mem_append_right _ List.mem_cons_self, same⟩
  | ends gone left unique =>
    refine .inr ⟨fun still => ?_, gone⟩
    rw [left] at still
    exact (runningWithdraw.mp still).2 rfl

theorem othersStay (turned : Turned s id t) {r : Running} (mem : r ∈ running s)
    (other : r.task ≠ id) : r ∈ running t := by
  have there := runningWithdraw.mpr ⟨mem, other⟩
  have halted {scopes : Scopes Echo} {x : Running} (h : Halted (s.withdraw id) scopes x t) :
      r ∈ running t := by
    cases h with
    | stays same stands => exact stands ▸ List.mem_append_left _ there
    | ends gone left => exact left ▸ there
  cases turned with
  | beside same => exact same.running ▸ mem
  | command x present own h => exact halted h
  | line session text piped listed apart h => exact halted h

theorem turnHalts (h : Sound s) (unique : Unique s) {tie : Shell.Tie} {r : Running}
    {scopes : Scopes Echo} (turn : Turn tie s r scopes) :
    (r ∈ running (s.resume tie r.task) ∧ (s.resume tie r.task).scopes = scopes) ∨
      (r ∉ running (s.resume tie r.task) ∧
        (s.resume tie r.task).scopes = (scopes.finish r.session r.scope.id).2) := by
  have turned := resumeTurned h unique tie r.task
  cases turn with
  | goesOn there =>
    cases turned with
    | beside same => exact .inl ⟨same.running ▸ there, same.scopes⟩
    | command other present own halted =>
      cases oneRunning unique present there own
      exact haltedEither halted
    | line session text piped listed apart halted => exact absurd rfl (apart r there)
  | begins new =>
    obtain ⟨text, piped, found, scope, counted⟩ := begunNew new
    cases turned with
    | beside same => exact absurd (congrArg Scopes.lastId same.scopes) counted
    | command other present own halted =>
      exact absurd own (apartTask unique (Shell.lookedUp found) rfl other present)
    | line session text piped listed apart halted =>
      cases found.symm.trans listed
      have same : r = ⟨r.task, r.session, (s.scopes.begin r.session).1⟩ := by
        rw [← scope]
      rw [← same] at halted
      exact haltedEither halted

theorem givesUp {running : List Running} {scopes : Scopes Echo} {begun : List (SessionId × Scope)}
    {released : List (SessionId × ScopeId)} (held : Held running scopes begun released) {r : Running}
    (mem : r ∈ running) :
    GivesUp scopes (scopes.finish r.session r.scope.id).2 r.session r.scope := by
  obtain ⟨signals, -, live⟩ := finished scopes r.session r.scope.id
  refine ⟨fun still => ?_, fun other kept apart => ?_, signals⟩
  · exact ((live r.session r.scope).mp still).2 ⟨rfl, rfl⟩
  · rw [live]
    refine ⟨fun there => there.1, fun there => ⟨there, ?_⟩⟩
    rintro ⟨rfl, same⟩
    obtain ⟨x, listed, own, rfl⟩ := held.holds r.session kept there
    exact apart (by rw [held.apart x listed r mem same])

theorem oneForeground {begun : List (SessionId × Scope)} (h : Recorded s begun) :
    OneForeground s begun := by
  have staged := stagedRecorded h
  obtain ⟨released, held⟩ := staged.held
  refine ⟨held.begun, held.apart, ?_, ?_, ?_, ?_, ?_⟩
  · intro r mem other
    rcases held.safe.accounted _ (held.begun r mem) with live | left | fired
    · exact absurd (lastLive held.safe live) other
    · exact absurd left (held.unreleased r mem)
    · exact fired
  · exact fun session scope live => ⟨lastLive held.safe live, held.holds session scope live⟩
  · intro tie r scopes turn gone
    obtain ⟨running, begun, released, mem, held⟩ := turnHeld staged turn
    rcases turnHalts staged.sound staged.unique turn with ⟨still, -⟩ | ⟨-, given⟩
    · exact absurd still gone
    · rw [given]
      exact givesUp held mem
  · intro tie r scopes turn still
    rcases turnHalts staged.sound staged.unique turn with ⟨-, same⟩ | ⟨gone, -⟩
    · exact same
    · exact absurd still gone
  · intro t step r mem gone
    cases stepMoved staged.sound step with
    | beside same => exact absurd (same.running ▸ mem) gone
    | cancelled session scopes stands => exact absurd (stands ▸ mem) gone
    | closed session scopes stands => exact absurd (stands ▸ mem) gone
    | turn tie id same =>
      subst same
      by_cases own : r.task = id
      · exact ⟨tie, own ▸ rfl⟩
      · exact absurd (othersStay (resumeTurned staged.sound staged.unique tie id) mem own) gone

def sleeping : Shell :=
  ((Shell.started Config.standard).openSession.2.execute ⟨0⟩ "sleep 10" none).2.resume .event ⟨0⟩

def superseding : Shell := (sleeping.execute ⟨0⟩ "sleep 10" none).2.resume .event ⟨1⟩

theorem recordedOpen {begun : List (SessionId × Scope)} (h : Recorded s begun) :
    Recorded s.openSession.2 begun :=
  .move h (.openSession s) rfl

theorem recordedExecute {begun : List (SessionId × Scope)} (h : Recorded s begun) (session : SessionId)
    (line : Text) : Recorded (s.execute session line none).2 begun :=
  .move h (.execute s session line none) rfl

theorem oneForegroundSuperseding :
    let first : Running := ⟨⟨0⟩, ⟨0⟩, ⟨⟨1⟩, ⟨0⟩⟩⟩
    let second : Running := ⟨⟨1⟩, ⟨0⟩, ⟨⟨2⟩, ⟨1⟩⟩⟩
    let begun := [(⟨0⟩, first.scope), (⟨0⟩, second.scope)]
    running superseding = [first, second] ∧ Recorded superseding begun ∧
      OneForeground superseding begun := by
  intro first second begun
  have opened : Recorded (Shell.started Config.standard).openSession.2 [] :=
    recordedOpen (.start (Shell.startedMade _))
  have began : begins .event
      ((Shell.started Config.standard).openSession.2.execute ⟨0⟩ "sleep 10" none).2 ⟨0⟩ =
        [(⟨0⟩, first.scope)] := by decide +kernel
  have asleep : Recorded sleeping [(⟨0⟩, first.scope)] := by
    have turn := Recorded.turn (recordedExecute opened ⟨0⟩ "sleep 10") .event ⟨0⟩
    rw [began] at turn
    exact turn
  have again : begins .event (sleeping.execute ⟨0⟩ "sleep 10" none).2 ⟨1⟩ =
      [(⟨0⟩, second.scope)] := by decide +kernel
  have recorded : Recorded superseding begun := by
    have turn := Recorded.turn (recordedExecute asleep ⟨0⟩ "sleep 10") .event ⟨1⟩
    rw [again] at turn
    exact turn
  exact ⟨by decide +kernel, recorded, oneForeground recorded⟩

end ConsoleShell.Foreground
