import ConsoleShell.Proofs.Continuations
import ConsoleShell.Proofs.Refusal

/-! The table of the sessions, with their variables and their histories, and the sessions whose users want to
leave. Commands touch them by what they change and by nothing else that they do. So whatever their changes
preserve is the same after a whole turn, and nobody has to look at the rest of it. -/
namespace ConsoleShell.SessionTables
open Actions (Each Called WaitEach)

def Holds (P : Dict SessionId Session → List SessionId → Prop) (s : Shell) : Prop := P s.sessions s.exits

def Respects (P : Dict SessionId Session → List SessionId → Prop) (session : SessionId) : Program → Prop
  | .change what _ => ∀ s : Shell, Holds P s → Holds P (s.change session what)
  | _ => True

structure Alone (s t : Shell) : Prop where
  sessions : t.sessions = s.sessions
  exits : t.exits = s.exits

variable {P : Dict SessionId Session → List SessionId → Prop} {s t : Shell} {c : Invocation} {p : Program}

theorem Alone.holds (alone : Alone s t) (held : Holds P s) : Holds P t := by
  unfold Holds
  rw [alone.sessions, alone.exits]
  exact held

section Alone

variable (s : Shell) (c : Invocation)

theorem printAtAlone (session : SessionId) (job : Option JobId) (kind : OutputKind) (text : Text) :
    Alone s (s.printAt session job kind text).2 := by
  cases job <;> exact ⟨rfl, rfl⟩

theorem printAlone (kind : OutputKind) (text : Text) : Alone s (s.print c kind text).2 :=
  printAtAlone s c.session c.origin.job? kind text

theorem updateAlone (group : GroupId) (text : Text) : Alone s (s.update c group text).2 := by
  unfold Shell.update
  split <;> exact ⟨rfl, rfl⟩

theorem deleteAlone (group : GroupId) : Alone s (s.delete c group).2 := by
  unfold Shell.delete
  split <;> exact ⟨rfl, rfl⟩

theorem clearAlone : Alone s (s.clear c) := by
  unfold Shell.clear
  split <;> exact ⟨rfl, rfl⟩

theorem replayAlone (groups : List Group) : Alone s (s.replay c groups) := by
  unfold Shell.replay
  split <;> exact ⟨rfl, rfl⟩

theorem echoesAlone (echoes : List Echo) : Alone s (echoes.foldl Shell.echo s) := by
  rw [Refusal.toldEach]
  exact ⟨rfl, rfl⟩

theorem onScopesAlone {α : Type} (change : α × List (Note Echo) × Scopes Echo) :
    Alone s (s.onScopes change).2 :=
  have alone := echoesAlone { s with scopes := change.2.2 } _
  ⟨alone.sessions, alone.exits⟩

theorem onCancelAlone (text : Text) : Alone s (s.onCancel c text) := by
  unfold Shell.onCancel
  dsimp only
  split
  · exact onScopesAlone s _
  · split
    · exact printAtAlone s _ _ _ _
    · exact ⟨rfl, rfl⟩

theorem killAlone (job : JobId) : Alone s (s.killJob job).2 :=
  have alone := echoesAlone { s with jobs := (s.jobs.kill job s.wall).2.2 } _
  ⟨alone.sessions, alone.exits⟩

theorem diceAlone (dice : Nat → Nat) : Alone s { s with dice } := ⟨rfl, rfl⟩

theorem rollAlone (sides : Nat) : Alone s (s.roll sides).2 := by
  unfold Shell.roll
  exact diceAlone s _

theorem awaitLineAlone : Alone s (s.awaitLine c).2 := by
  unfold Shell.awaitLine
  split
  · exact ⟨rfl, rfl⟩
  · split <;> exact ⟨rfl, rfl⟩

theorem lookAlone (id : TaskId) (job : JobId) : Alone s (s.look id job) := by
  unfold Shell.look
  split <;> exact ⟨rfl, rfl⟩

theorem startJobAlone (session : SessionId) (line : Text) (piped : Option (List Text)) :
    Alone s (s.startJob session line piped).2 := by
  unfold Shell.startJob
  dsimp only
  split <;> exact ⟨rfl, rfl⟩

theorem concludeAlone (id : TaskId) (session : SessionId) (origin : Origin) (outcome : Outcome) :
    Alone s (s.conclude id session origin outcome) := by
  unfold Shell.conclude
  split
  · dsimp only
    split <;> exact ⟨rfl, rfl⟩
  · split <;> exact ⟨rfl, rfl⟩

theorem leaveAlone (id : TaskId) (run : Halt × Shell) : Alone run.2 (Shell.leave id c run) := by
  obtain ⟨halt, t⟩ := run
  unfold Shell.leave
  cases halt with
  | waiting wait | yielded rest => exact ⟨rfl, rfl⟩
  | ended ending =>
    dsimp only
    split
    · exact concludeAlone _ _ _ _ _
    · split <;> exact ⟨rfl, rfl⟩
    · exact ⟨rfl, rfl⟩

end Alone

/- A command that asks for a line comes to its pause or fails, and changes no session. -/
theorem askedAlone {wait : RequestId → Wait} (held : Holds P s) :
    let asked : Halt × Shell := match s.awaitLine c with
      | (.ok request, s) => (.waiting (wait request), s)
      | (.error failure, s) => (.ended (.failed failure), s)
    Holds P asked.2 := by
  have alone := (awaitLineAlone s c).holds held
  dsimp only
  split <;> simpa [*] using alone

theorem performs (each : Each (Respects P c.session) p) (left : Nat) (held : Holds P s) :
    Holds P (Shell.perform c left p s).2 := by
  induction p generalizing left s with
  | finish | fail failure | crash => exact held
  | print kind text next ih => exact ih _ (each.2 _) _ ((printAlone s c kind text).holds held)
  | update group text next ih => exact ih _ (each.2 _) _ ((updateAlone s c group text).holds held)
  | delete group next ih => exact ih _ (each.2 _) _ ((deleteAlone s c group).holds held)
  | clear next ih => exact ih each.2 _ ((clearAlone s c).holds held)
  | replay groups next ih => exact ih each.2 _ ((replayAlone s c groups).holds held)
  | inspect next ih => exact ih _ (each.2 _) _ held
  | change what next ih => exact ih each.2 _ (each.1 s held)
  | kill job next ih => exact ih _ (each.2 _) _ ((killAlone s job).holds held)
  | roll sides next ih =>
    have rolled := rollAlone s sides
    unfold Shell.perform
    generalize s.roll sides = roll at rolled ⊢
    exact ih _ (each.2 _) _ (rolled.holds held)
  | onCancel text next ih => exact ih each.2 _ ((onCancelAlone s c text).holds held)
  | sleep span stopped next stoppedIh nextIh =>
    unfold Shell.perform
    split
    · exact stoppedIh each.2.1 _ held
    · split
      · exact held
      · split
        · exact nextIh each.2.2 _ held
        · exact held
  | readLine next ih =>
    unfold Shell.perform
    exact askedAlone held
  | confirm message next ih =>
    unfold Shell.perform
    exact askedAlone ((printAlone s c .output (Shell.question message)).holds held)
  | awaitJob job next ih =>
    unfold Shell.perform
    split
    · exact ih _ (each.2 _) _ held
    · exact held
    · split <;> exact held
  | awaitCancel next ih =>
    unfold Shell.perform
    split
    · exact ih each.2 _ held
    · exact held

theorem takesLine (request : RequestId) {next : Text → Shell → Halt × Shell}
    (goes : ∀ text t, Holds P t → Holds P (next text t).2) (held : Holds P s) :
    Holds P (Shell.takeLine request s next).2 := by
  unfold Shell.takeLine
  split
  · exact goes _ _ held
  · exact held
  · exact held

theorem proceeds {wait : Wait} (each : WaitEach (Respects P c.session) wait) (held : Holds P s) :
    Holds P (Shell.proceed c s wait).2 := by
  cases wait with
  | sleep due stopped next =>
    obtain ⟨span, each⟩ := each
    exact performs each.2.2 _ held
  | line request next => exact takesLine request (fun text t => performs (each.2 text) _) held
  | answer request next =>
    obtain ⟨message, each⟩ := each
    refine takesLine request (fun text t held => ?_) held
    split
    · exact performs (each.2 true) _ held
    · exact performs (each.2 false) _ held
    · exact askedAlone ((printAlone t c .output Shell.askAgain).holds held)
  | job watch next => exact performs each _ held
  | cancel next => exact performs each.2 _ held

theorem aborts {wait : Wait} (each : WaitEach (Respects P c.session) wait) (held : Holds P s) :
    Holds P (Shell.abort c s wait).2 := by
  cases wait with
  | sleep due stopped next =>
    obtain ⟨span, each⟩ := each
    exact performs each.2.1 _ held
  | line | answer | job => exact held
  | cancel next => exact performs each.2 _ held

theorem goesOn {wait : Wait} (each : WaitEach (Respects P c.session) wait) (tie : Shell.Tie)
    (held : Holds P s) : Holds P (Shell.goOn tie c wait s).2 := by
  unfold Shell.goOn
  split
  · exact proceeds each held
  · exact proceeds each held
  · exact aborts each held
  · exact aborts each held
  · exact held

end ConsoleShell.SessionTables
