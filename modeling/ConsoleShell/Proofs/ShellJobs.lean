import ConsoleShell.Proofs.OwnRequests

/-! The jobs of a shell. Whatever happens to a shell is done to its jobs deed by deed, so everything that is
true of jobs by themselves is true of them in every shell. -/
namespace ConsoleShell.ShellJobs
open Confinement JobHistory
open Shell (Sound Step)

def Deeds (j k : Jobs Echo) : Prop := ∃ deeds : List (Deed Echo), k = deeds.foldl Deed.run j

theorem Deeds.refl (j : Jobs Echo) : Deeds j j := ⟨[], rfl⟩

theorem Deeds.one (j : Jobs Echo) (d : Deed Echo) : Deeds j (d.run j) := ⟨[d], rfl⟩

theorem Deeds.trans {i j k : Jobs Echo} (first : Deeds i j) (second : Deeds j k) : Deeds i k := by
  obtain ⟨before, rfl⟩ := first
  obtain ⟨after, rfl⟩ := second
  exact ⟨before ++ after, by rw [List.foldl_append]⟩

theorem deedsWorks {own : Option JobId} {j k : Jobs Echo} (works : Works own j k) : Deeds j k := by
  obtain ⟨deeds, -, same⟩ := works
  exact ⟨deeds, same⟩

variable {s t : Shell} {id : TaskId} {task : Shell.Task} {session : SessionId}

theorem deedsStart (s : Shell) (session : SessionId) (line : Text) (piped : Option (List Text)) :
    (s.startJob session line piped).2.jobs = (s.jobs.create session line s.wall).2 := by
  unfold Shell.startJob
  dsimp only
  split
  · rfl
  · rfl

theorem deedsKillEach (j : Jobs Echo) (now : Nat) (jobs : List JobId) :
    Deeds j (Shell.killEach j now jobs) := by
  induction jobs generalizing j with
  | nil => exact .refl j
  | cons id rest ih => exact (Deeds.one j (.kill id now)).trans (ih _)

theorem deedsLine (turn : LineTurn id task session s t) : Deeds s.jobs t.jobs := by
  cases turn with
  | noted noted => exact noted.jobs ▸ .refl _
  | @job u t command piped before after =>
    rw [after.jobs, deedsStart, before.jobs]
    exact .one _ (.create session command u.wall)
  | command before own foreground turn =>
    have works := deedsWorks turn.within.jobs
    rwa [before.jobs] at works

theorem deedsTurn (turn : TaskTurn s id task t) : Deeds s.jobs t.jobs := by
  cases turn with
  | waits => exact .refl _
  | line own foreground turn => exact (deedsLine turn : Deeds (s.withdraw id).jobs t.jobs)
  | command own place turn => exact deedsWorks turn.within.jobs
  | @watcher watch same =>
    unfold Shell.look
    split
    · exact .refl _
    · exact .refl _

theorem deedsStep (h : Sound s) (step : Step s t) : Deeds s.jobs t.jobs := by
  cases step with
  | resume tie id =>
    cases found : s.tasks.lookup id with
    | none =>
      unfold Shell.resume
      rw [found]
      exact .refl _
    | some task => exact deedsTurn (resumeTurn h found tie)
  | closeSession session =>
    obtain ⟨ready, closed⟩ := Shell.closedQuietly h.toClean session
    rw [closed]
    exact deedsKillEach _ _ _
  | input session line =>
    rcases Shell.takenIn s session line with ⟨ready, taken⟩ | dispatched
    · rw [taken]
      exact .refl _
    · rw [dispatched]
      exact .refl _
  | cancel session =>
    obtain ⟨ready, cancelled⟩ := Shell.cancelledQuietly h.toClean session
    rw [cancelled]
    exact .refl _
  | createJob session line =>
    unfold Shell.createJob
    rw [deedsStart]
    exact .one _ (.create session line s.wall)
  | killJob id =>
    obtain ⟨ready, killed⟩ := Shell.killedQuietly h.toClean id
    rw [killed]
    exact .one _ (.kill id s.wall)
  | clearFinished => exact .one _ .clearFinished
  | watchJob id =>
    unfold Shell.watchJob Shell.look
    dsimp only
    split
    · exact .refl _
    · exact .refl _
  | _ => exact .refl _

theorem deedsReachable (h : Shell.Reachable s) : Deeds .empty s.jobs := by
  induction h with
  | start made =>
    obtain ⟨registry, rfl⟩ := Shell.registerElsewhere made
    exact .refl _
  | step before move ih => exact ih.trans (deedsStep (Shell.soundReachable before) move)

theorem historyDeeds (deeds : List (Deed Echo)) {history : History Echo} (kept : Kept history) :
    Kept (deeds.foldl History.add history) ∧
      (deeds.foldl History.add history).jobs = deeds.foldl Deed.run history.jobs := by
  induction deeds generalizing history with
  | nil => exact ⟨kept, rfl⟩
  | cons d rest ih => exact ih (keptAdd kept d)

theorem historyReachable (h : Shell.Reachable s) :
    ∃ history : History Echo, Kept history ∧ history.jobs = s.jobs := by
  obtain ⟨deeds, same⟩ := deedsReachable h
  obtain ⟨kept, jobs⟩ := historyDeeds deeds keptStart
  exact ⟨_, kept, jobs.trans same.symm⟩

end ConsoleShell.ShellJobs
