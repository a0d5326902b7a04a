import ConsoleShell.Job
import ConsoleShell.Proofs.Dict
import ConsoleShell.Proofs.Signals

/-! What can be done to jobs, by those who start and kill them, by their commands that come to an end,
and by whoever prints in them. A deed makes a job, settles one that runs, or leaves alone what jobs
came to. -/
namespace ConsoleShell

variable {κ : Type}

theorem jobStrict (a : JobId) : ¬ a < a := Nat.lt_irrefl a.number

theorem jobTrans (a b c : JobId) (first : a < b) (second : b < c) : a < c :=
  Nat.lt_trans first second

theorem sameJob {a b : JobId} : a.number = b.number ↔ a = b := by
  cases a
  cases b
  simp

theorem jobTotal (a b : JobId) (other : a ≠ b) (after : ¬ a < b) : b < a := by
  have numbers : a.number ≠ b.number := fun same => other (sameJob.mp same)
  exact Nat.lt_of_le_of_ne (Nat.le_of_not_lt after) numbers.symm

inductive Deed (κ : Type) where
  | create (session : SessionId) (command : Text) (now : Nat)
  | settle (id : JobId) (result : JobResult) (now : Nat)
  | kill (id : JobId) (now : Nat)
  | clearFinished
  | queue (signal : SignalId) (item : κ)
  | print (id : JobId) (kind : OutputKind) (text : Text)
  | update (id : JobId) (group : GroupId) (text : Text)
  | delete (id : JobId) (group : GroupId)
  | clearOutput (id : JobId)

def Deed.run (j : Jobs κ) : Deed κ → Jobs κ
  | create session command now => (j.create session command now).2
  | settle id result now => j.settle id result now
  | kill id now => (j.kill id now).2.2
  | clearFinished => j.clearFinished.2
  | queue signal item => j.queue signal item
  | print id kind text => (j.print id kind text).2
  | update id group text => (j.update id group text).2
  | delete id group => (j.delete id group).2
  | clearOutput id => j.clearOutput id

namespace Jobs

inductive Change (j : Jobs κ) : Jobs κ → Prop where
  | none : Change j j
  | create (session command now) : Change j (j.create session command now).2
  | settle {id job} (found : j.table.get? id = some job) (running : job.status.isFinal = false)
      (result : JobResult) (now : Nat) :
      Change j { j with
        table := j.table.insert id
          { job with status := result.status, endedAt := some now, error := result.error? }
        notices := j.notices + 1 }
  | kill {id job} (found : j.table.get? id = some job) (running : job.status.isFinal = false)
      (now : Nat) :
      Change j { j with
        table := j.table.insert id { job with status := .killed, endedAt := some now }
        signals := (j.signals.fire job.signal).2
        notices := j.notices + 1 }
  | clearFinished : Change j j.clearFinished.2
  | queue (signal item) : Change j (j.queue signal item)
  | output {id job} (found : j.table.get? id = some job) (output : Buffer) :
      Change j { j with table := j.table.insert id { job with output } }

variable (j : Jobs κ)

theorem killCases (id : JobId) (now : Nat) :
    (∃ job, j.table.get? id = some job ∧ job.status.isFinal = false ∧
      (j.kill id now).1 = .ok .killed ∧
      (j.kill id now).2.2 = { j with
        table := j.table.insert id { job with status := .killed, endedAt := some now }
        signals := (j.signals.fire job.signal).2
        notices := j.notices + 1 }) ∨
    (∀ job, j.table.get? id = some job → job.status.isFinal = true) ∧
      (j.kill id now).1 ≠ .ok .killed ∧ (j.kill id now).2.2 = j := by
  unfold Jobs.kill markKilled
  cases found : j.table.get? id with
  | none => simp
  | some job =>
    by_cases final : job.status.isFinal = true
    · simp [final]
    · simp [final, signal?, Dict.getInsert, fire, giveNotice]

theorem settleCases (id : JobId) (result : JobResult) (now : Nat) :
    (∃ job, j.table.get? id = some job ∧ job.status.isFinal = false ∧
      j.settle id result now = { j with
        table := j.table.insert id
          { job with status := result.status, endedAt := some now, error := result.error? }
        notices := j.notices + 1 }) ∨
    (∀ job, j.table.get? id = some job → job.status.isFinal = true) ∧
      j.settle id result now = j := by
  unfold Jobs.settle
  cases found : j.table.get? id with
  | none => simp
  | some job => by_cases final : job.status.isFinal = true <;> simp [final]

theorem outputChanges {α : Type} (id : JobId) (change : Buffer → α × Buffer) :
    Change j (j.onOutput id change).2 := by
  unfold onOutput
  split
  · exact .none
  · rename_i found
    exact .output found _

theorem deedChanges (d : Deed κ) : Change j (d.run j) := by
  cases d with
  | create session command now => exact .create session command now
  | settle id result now =>
    change Change j (j.settle id result now)
    rcases j.settleCases id result now with ⟨job, found, running, same⟩ | ⟨-, same⟩
    · exact same ▸ .settle found running result now
    · exact same.symm ▸ .none
  | kill id now =>
    change Change j (j.kill id now).2.2
    rcases j.killCases id now with ⟨job, found, running, -, same⟩ | ⟨-, -, same⟩
    · exact same ▸ .kill found running now
    · exact same.symm ▸ .none
  | clearFinished => exact .clearFinished
  | queue signal item => exact .queue signal item
  | print id kind text => exact j.outputChanges id fun b => b.print kind text
  | update id group text => exact j.outputChanges id fun b => b.update group text
  | delete id group => exact j.outputChanges id fun b => b.delete group
  | clearOutput id => exact j.outputChanges id fun b => ((), b.clear)

end Jobs
end ConsoleShell
