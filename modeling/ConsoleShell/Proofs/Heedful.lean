import ConsoleShell.Proofs.Crashes

/-! What commands go on with under their names. Whoever stands there and waits for a line was called as `read`,
or as `confirm` if it waits for an answer; and a session's lines are forgotten only by a line that calls
`history` and asks for it, and its user is asked to leave only by one that calls `exit`. Both happen at once, so
nobody has them in mind for later. -/
namespace ConsoleShell.Heedful
open Actions
open Confinement (remains)
open Shell (Provided Reachable Runs)

def Forgets (call : Call) : Prop :=
  call.command.name = "history" ∧ call.arguments.isOn "clear" = true

instance (call : Call) : Decidable (Forgets call) := inferInstanceAs (Decidable (_ ∧ _))

variable {s t : Shell} {c : Invocation} {id : TaskId} {tie : Shell.Tie} {run : Halt × Shell}
  {session : SessionId} {line : Text} {call : Call}

theorem forgetsOnly (provided : Provided s.registry.commands)
    (read : s.readCall session line = .ok (some call)) (forgets : Forgets call) (caller : Caller) :
    call.command.handler call.arguments caller = .change .clearHistory .finish := by
  obtain ⟨d, mem, named, handler⟩ := calledDeclared provided read
  obtain ⟨name, clears⟩ := forgets
  have history : d = Builtin.history :=
    Crashes.declaredOnce mem (by simp [Builtin.all]) (named.symm.trans name)
  rw [handler, history]
  exact if_pos clears

def Quits (call : Call) : Prop := call.command.name = "exit"

instance (call : Call) : Decidable (Quits call) := inferInstanceAs (Decidable (_ = _))

theorem quitsOnly (provided : Provided s.registry.commands)
    (read : s.readCall session line = .ok (some call)) (quits : Quits call) (caller : Caller) :
    call.command.handler call.arguments caller = .change .requestExit .finish := by
  obtain ⟨d, mem, named, handler⟩ := calledDeclared provided read
  have exit : d = Builtin.exit := Crashes.declaredOnce mem (by simp [Builtin.all]) (named.symm.trans quits)
  rw [handler, exit]
  rfl

theorem calledHeedful (provided : Provided s.registry.commands)
    (read : s.readCall session line = .ok (some call)) (keeps : ¬ Forgets call) (stays : ¬ Quits call)
    (caller : Caller) :
    Called (Heedful call.command.name) (call.command.handler call.arguments caller) := by
  obtain ⟨d, mem, named, handler⟩ := calledDeclared provided read
  rw [named, handler]
  have plainly {p : Program} (called : Called (Naming (Heedful d.name)) p) : Called (Heedful d.name) p :=
    calledMono called fun _ => namingHere fun _ _ _ => trivial
  rcases heedfulCommands mem with rfl | rfl | heedful
  · rcases historyForgets call.arguments caller with ⟨clears, -⟩ | slight
    · exact absurd ⟨named, clears⟩ keeps
    · exact plainly (.inr (slight.mono fun _ => namingMono fun _ => slightHeedful))
  · exact absurd named stays
  · exact plainly (heedful call.arguments caller)

def TaskHeedful : Shell.Task → Prop
  | .program c program => ∃ name, c.command = some name ∧ Each (Heedful name) program
  | .waiting c wait => ∃ name, c.command = some name ∧ WaitEach (Heedful name) wait
  | .line .. | .job .. | .watcher _ => True

theorem freshHeedful {jobs : Jobs Echo} {task : Shell.Task} (fresh : Fresh jobs task) : TaskHeedful task := by
  cases task with
  | line | job | watcher => trivial
  | program | waiting => exact fresh.elim

theorem runsHeedful (provided : Provided s.registry.commands) (tasks : ∀ e ∈ s.tasks, TaskHeedful e.2)
    (runs : Runs tie s id c run) :
    ∃ name, c.command = some name ∧
      ((∃ ending, run.1 = .ended ending) ∨ HaltEach (Heedful name) run.1) := by
  cases runs with
  | @called session origin line piped t call begins read =>
    have known : Provided t.registry.commands := begins.kept.commands.symm ▸ provided
    refine ⟨_, rfl, ?_⟩
    by_cases forgets : Forgets call
    · rw [forgetsOnly known read forgets]
      exact .inl ⟨.finished, rfl⟩
    by_cases quits : Quits call
    · rw [quitsOnly known read quits]
      exact .inl ⟨.finished, rfl⟩
    · rcases calledHeedful known read forgets quits ⟨origin.job?, piped⟩ with crash | each
      · rw [crash]
        exact .inl ⟨.crashed, rfl⟩
      · exact .inr (haltPerform each _)
  | program stands =>
    obtain ⟨name, named, each⟩ := tasks _ (Shell.lookedUp stands)
    exact ⟨name, named, .inr (haltPerform each _)⟩
  | waited stands =>
    obtain ⟨name, named, each⟩ := tasks _ (Shell.lookedUp stands)
    exact ⟨name, named, .inr (haltGoOn each tie)⟩

theorem remainsHeedful (provided : Provided s.registry.commands) (tasks : ∀ e ∈ s.tasks, TaskHeedful e.2)
    (runs : Runs tie s id c run) : ∀ e ∈ remains id c run.1, TaskHeedful e.2 := by
  obtain ⟨name, named, halted⟩ := runsHeedful provided tasks runs
  intro e mem
  rcases halted with ⟨ending, ends⟩ | each
  · rw [ends] at mem
    cases mem
  · unfold remains at mem
    split at mem
    · rename_i wait halt
      cases List.mem_singleton.mp mem
      rw [halt] at each
      exact ⟨name, named, each⟩
    · rename_i rest halt
      cases List.mem_singleton.mp mem
      rw [halt] at each
      exact ⟨name, named, each.2⟩
    · cases mem

theorem heedfulReachable (h : Reachable s) : ∀ e ∈ s.tasks, TaskHeedful e.2 := by
  induction h with
  | start made =>
    obtain ⟨registry, rfl⟩ := Shell.registerElsewhere made
    exact fun _ mem => nomatch mem
  | @step s t before move ih =>
    rcases stepJoins move with ⟨tie, id, rfl⟩ | joined
    · intro e mem
      rcases (tasksAfter tie s id).origins e mem with old | fresh | ⟨c, run, runs, -, remains⟩
      · exact ih e old
      · exact freshHeedful fresh
      · exact remainsHeedful (Shell.soundReachable before).provided ih runs e remains
    · exact fun e mem => (joined.origins e mem).elim (ih e) freshHeedful

end ConsoleShell.Heedful
