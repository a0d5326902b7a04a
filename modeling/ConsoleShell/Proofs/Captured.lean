import ConsoleShell.Output.Console
import ConsoleShell.Proofs.Printing
import ConsoleShell.Scope

/-! What consoles and jobs hold of the output of commands, and what waits on signals. Where only inert
text is printed everything that is held is harmless; where nobody waits on a signal, firing it
sets nothing free. -/
namespace ConsoleShell.Captured
open Markup Rendering Printing

def BufferHarmless (b : Buffer) : Prop := GroupsHarmless b.groups

def ConsoleHarmless (c : Console) : Prop := c.buffers.Every BufferHarmless

def JobsHarmless {κ : Type} (j : Jobs κ) : Prop := j.table.Every fun job => BufferHarmless job.output

section Buffers

variable {b : Buffer} (h : BufferHarmless b)

include h

theorem bufferPush (kind : OutputKind) {lines : List Line}
    (harmless : ∀ l ∈ lines, ∀ s ∈ l.segments, Harmless s) :
    BufferHarmless (b.pushLines kind lines).2 :=
  eachAdded h harmless

theorem bufferPrint (kind : OutputKind) {text : Text} (inert : Inert text) :
    BufferHarmless (b.print kind text).2 :=
  bufferPush h kind (textHarmless kind inert)

theorem bufferUpdate (id : GroupId) {text : Text} (inert : Inert text) :
    BufferHarmless (b.update id text).2 := by
  unfold Buffer.update
  split
  · exact h
  · dsimp only
    split
    · exact h
    · intro group mem
      obtain ⟨old, before, rfl⟩ := List.mem_map.mp mem
      split
      · exact textHarmless _ inert
      · exact h old before

theorem bufferDelete (id : GroupId) : BufferHarmless (b.delete id).2 :=
  fun group mem => h group (List.mem_filter.mp mem).1

end Buffers

theorem bufferClear (b : Buffer) : BufferHarmless b.clear := fun _ mem => nomatch mem

section Consoles

variable {c : Console} (h : ConsoleHarmless c)

include h

theorem consoleFound {session : SessionId} {b : Buffer} (found : c.buffer? session = some b) :
    BufferHarmless b :=
  Dict.everyFound h found

theorem consoleSet (session : SessionId) {b : Buffer} (harmless : BufferHarmless b) :
    ConsoleHarmless (c.setBuffer session b) :=
  Dict.everyInsert h harmless session

theorem consolePush (session : SessionId) (kind : OutputKind) {lines : List Line}
    (harmless : ∀ l ∈ lines, ∀ s ∈ l.segments, Harmless s) :
    ConsoleHarmless (c.pushLines session kind lines).2 := by
  unfold Console.pushLines
  split
  · exact h
  · rename_i found
    exact consoleSet h session (bufferPush (consoleFound h found) kind harmless)

theorem consolePrint (session : SessionId) (kind : OutputKind) {text : Text} (inert : Inert text) :
    ConsoleHarmless (c.print session kind text).2 :=
  consolePush h session kind (textHarmless kind inert)

theorem consoleUpdate (session : SessionId) (group : GroupId) {text : Text} (inert : Inert text) :
    ConsoleHarmless (c.update session group text).2 := by
  unfold Console.update
  split
  · exact h
  · rename_i b found
    have updated := bufferUpdate (consoleFound h found) group inert
    split
    · rename_i changed
      rw [changed] at updated
      exact consoleSet h session updated
    · exact h
    · exact h

theorem consoleDelete (session : SessionId) (group : GroupId) :
    ConsoleHarmless (c.delete session group).2 := by
  unfold Console.delete
  split
  · exact h
  · rename_i b found
    have deleted := bufferDelete (consoleFound h found) group
    split
    · rename_i changed
      rw [changed] at deleted
      exact consoleSet h session deleted
    · exact h

theorem consoleClear (session : SessionId) : ConsoleHarmless (c.clear session) := by
  unfold Console.clear
  split
  · exact h
  · exact consoleSet h session (bufferClear _)

theorem consoleOpen (session : SessionId) : ConsoleHarmless (c.open session) := by
  unfold Console.open
  split
  · exact h
  · exact consoleSet h session (bufferClear .empty)

theorem consoleClose (session : SessionId) : ConsoleHarmless (c.close session) :=
  Dict.everyErase h session

end Consoles

theorem consoleReplay {c : Console} (h : ConsoleHarmless c) (session : SessionId)
    {groups : List Group} (harmless : GroupsHarmless groups) :
    ConsoleHarmless (groups.foldl (fun console g => (console.replay session g).2) c) := by
  induction groups generalizing c with
  | nil => exact h
  | cons group rest ih =>
    have first := consolePush h session group.kind (harmless group List.mem_cons_self)
    exact ih first fun later mem => harmless later (List.mem_cons_of_mem _ mem)

section Jobs

variable {κ : Type} {j : Jobs κ} (h : JobsHarmless j)

include h

theorem jobsFound {id : JobId} {job : JobSnapshot} (found : j.get? id = some job) :
    GroupsHarmless job.output := by
  obtain ⟨held, stored, rfl⟩ := Option.map_eq_some_iff.mp found
  exact Dict.everyFound h stored

theorem jobsListed (runningOnly : Bool) :
    ∀ job ∈ j.list runningOnly, GroupsHarmless job.output := by
  intro job mem
  obtain ⟨entry, listed, rfl⟩ := List.mem_map.mp mem
  exact h entry (List.mem_filter.mp listed).1

theorem jobsWatched {id : JobId} {job : JobSnapshot} {watch : Watch}
    (seen : j.watch id = (.settled job, watch)) : GroupsHarmless job.output := by
  have looked : j.look id = .settled job := congrArg Prod.fst seen
  unfold Jobs.look at looked
  split at looked
  · contradiction
  · rename_i found
    split at looked
    · cases looked
      exact jobsFound h found
    · contradiction

theorem jobsOutput {α : Type} (id : JobId) {change : Buffer → α × Buffer}
    (keeps : ∀ b, BufferHarmless b → BufferHarmless (change b).2) :
    JobsHarmless (j.onOutput id change).2 := by
  unfold Jobs.onOutput
  split
  · exact h
  · rename_i job found
    exact Dict.everyInsert h (keeps job.output (Dict.everyFound h found)) id

theorem jobsCreate (session : SessionId) (command : Text) (now : Nat) :
    JobsHarmless (j.create session command now).2 := by
  have empty : BufferHarmless .empty := bufferClear .empty
  exact Dict.everyInsert h empty _

theorem jobsSettle (id : JobId) (result : JobResult) (now : Nat) :
    JobsHarmless (j.settle id result now) := by
  unfold Jobs.settle
  split
  · exact h
  · rename_i job found
    have held : BufferHarmless job.output := Dict.everyFound h found
    split
    · exact h
    · refine Dict.everyInsert h ?_ id
      exact held

theorem jobsMark (id : JobId) (now : Nat) : JobsHarmless (j.markKilled id now).2 := by
  unfold Jobs.markKilled
  split
  · exact h
  · rename_i job found
    have held : BufferHarmless job.output := Dict.everyFound h found
    split
    · exact h
    · refine Dict.everyInsert h ?_ id
      exact held

theorem jobsKill (id : JobId) (now : Nat) : JobsHarmless (j.kill id now).2.2 := by
  have marked := jobsMark h id now
  unfold Jobs.kill
  split
  · rename_i same
    rw [same] at marked
    split <;> exact marked
  · rename_i same
    rw [same] at marked
    exact marked

theorem jobsClear : JobsHarmless j.clearFinished.2 := Dict.everyKeep h _

end Jobs

def Silent {κ : Type} (s : Signals κ) : Prop := ∀ signal ∈ s.all, signal.waiting = []

section Signals

variable {κ : Type} {s : Signals κ} (h : Silent s)

include h

theorem silentCreate : Silent s.create.2 := eachAdded h rfl

theorem silentFire (id : SignalId) : (s.fire id).1.getD [] = [] ∧ Silent (s.fire id).2 := by
  unfold Signals.fire
  split
  · exact ⟨rfl, h⟩
  · rename_i signal found
    split
    · exact ⟨rfl, h⟩
    · refine ⟨h signal (List.mem_of_getElem? found), fun other mem => ?_⟩
      rcases List.mem_or_eq_of_mem_set mem with before | same
      · exact h other before
      · rw [same]

end Signals

section Killing

variable {κ : Type} (j : Jobs κ)

theorem markSignals (id : JobId) (now : Nat) : (j.markKilled id now).2.signals = j.signals := by
  unfold Jobs.markKilled
  split
  · rfl
  · split <;> rfl

theorem silentOutput {α : Type} {j : Jobs κ} (h : Silent j.signals) (id : JobId)
    (change : Buffer → α × Buffer) : Silent (j.onOutput id change).2.signals := by
  unfold Jobs.onOutput
  split
  · exact h
  · exact h

theorem silentSettle {j : Jobs κ} (h : Silent j.signals) (id : JobId) (result : JobResult)
    (now : Nat) : Silent (j.settle id result now).signals := by
  unfold Jobs.settle
  split
  · exact h
  · split
    · exact h
    · exact h

theorem silentKill {j : Jobs κ} (h : Silent j.signals) (id : JobId) (now : Nat) :
    (j.kill id now).2.1 = [] ∧ Silent (j.kill id now).2.2.signals := by
  have marked := markSignals j id now
  unfold Jobs.kill
  split
  · rename_i same
    rw [same] at marked
    dsimp only at marked
    split
    · exact ⟨rfl, marked ▸ h⟩
    · exact silentFire (marked ▸ h) _
  · rename_i same
    rw [same] at marked
    exact ⟨rfl, marked ▸ h⟩

end Killing

section Scopes

variable {ν : Type} {s : Scopes ν} (h : Silent s.signals)

omit h in
theorem runNothing (s : Scopes ν) : Cascade.run s [] = ([], s) := by
  have still (n : Nat) : Cascade.steps n ⟨s, [], []⟩ = ⟨s, [], []⟩ := by
    induction n with
    | zero => rfl
    | succ n ih => exact ih
  unfold Cascade.run Cascade.settle
  dsimp only
  rw [still]

include h

theorem silentScopesFire (signal : SignalId) :
    (s.fire signal).2.1 = [] ∧ Silent (s.fire signal).2.2.signals := by
  have fired := silentFire h signal
  unfold Scopes.fire
  split
  · rename_i same
    rw [same] at fired
    exact ⟨List.map_eq_nil_iff.mpr fired.1, fired.2⟩
  · exact ⟨rfl, h⟩

theorem silentReplace (session : SessionId) :
    (s.replace session).2.1 = [] ∧ Silent (s.replace session).2.2.signals := by
  unfold Scopes.replace
  dsimp only
  split
  · exact ⟨rfl, silentCreate h⟩
  · exact silentScopesFire (silentCreate h :) _

theorem silentInterrupt (session : SessionId) :
    (s.interrupt session).2.1 = [] ∧ Silent (s.interrupt session).2.2.signals := by
  unfold Scopes.interrupt
  split
  · exact ⟨rfl, h⟩
  · rename_i scope _
    have fired := silentScopesFire h scope.signal
    split <;>
    · rename_i same
      rw [same] at fired
      exact fired

theorem silentBegin (session : SessionId) :
    s.begin session = ((s.replace session).1, [], (s.replace session).2.2) := by
  unfold Scopes.begin
  dsimp only
  rw [(silentReplace h session).1, runNothing]

theorem silentCancel (session : SessionId) :
    s.cancel session = ((s.interrupt session).1, [], (s.interrupt session).2.2) := by
  unfold Scopes.cancel
  dsimp only
  rw [(silentInterrupt h session).1, runNothing]

theorem silentDiscard (session : SessionId) :
    (s.discard session).1 = [] ∧ Silent (s.discard session).2.signals := by
  unfold Scopes.discard
  split
  · exact ⟨rfl, h⟩
  · rename_i scope _
    have fired := silentScopesFire (s := { s with live := s.live.erase session }) h scope.signal
    dsimp only
    rw [fired.1, runNothing]
    exact ⟨rfl, fired.2⟩

end Scopes
end ConsoleShell.Captured
