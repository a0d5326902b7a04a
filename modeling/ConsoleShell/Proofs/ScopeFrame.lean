import ConsoleShell.Proofs.Sound

/-! Commands leave the scopes alone. Scopes are begun, cancelled and given up by lines, by users and at the
end of commands; nothing that a command of the shell does while it runs touches them. -/
namespace ConsoleShell.Shell
open Printing Captured

variable (s : Shell) (c : Invocation)

theorem scopesPrintAt (session : SessionId) (job : Option JobId) (kind : OutputKind) (text : Text) :
    (s.printAt session job kind text).2.scopes = s.scopes := by
  cases job <;> rfl

theorem scopesUpdate (group : GroupId) (text : Text) :
    (s.update c group text).2.scopes = s.scopes := by
  unfold Shell.update
  split <;> rfl

theorem scopesDelete (group : GroupId) : (s.delete c group).2.scopes = s.scopes := by
  unfold Shell.delete
  split <;> rfl

theorem scopesClear : (s.clear c).scopes = s.scopes := by
  unfold Shell.clear
  split <;> rfl

theorem scopesReplay (groups : List Group) : (s.replay c groups).scopes = s.scopes := by
  unfold Shell.replay
  split <;> rfl

theorem scopesEchoes (echoes : List Echo) : (echoes.foldl echo s).scopes = s.scopes := by
  induction echoes generalizing s with
  | nil => rfl
  | cons e rest ih => exact (ih _).trans (scopesPrintAt s e.session e.job .output e.text)

theorem scopesChanged {α : Type} (change : α × List (Note Echo) × Scopes Echo) :
    (s.onScopes change).2.scopes = change.2.2 :=
  scopesEchoes _ _

theorem scopesKill (id : JobId) : (s.killJob id).2.scopes = s.scopes := scopesEchoes _ _

theorem scopesAwaitLine : (s.awaitLine c).2.scopes = s.scopes := by
  unfold Shell.awaitLine
  split
  · rfl
  · split <;> rfl

theorem scopesDice (dice : Nat → Nat) : ({ s with dice } : Shell).scopes = s.scopes := rfl

theorem scopesRoll (sides : Nat) : (s.roll sides).2.scopes = s.scopes := by
  unfold Shell.roll
  exact scopesDice s _

theorem scopesDo (session : SessionId) (what : Change) :
    (s.change session what).scopes = s.scopes := by
  cases what with
  | requestExit =>
    change (s.requestExit session).scopes = s.scopes
    unfold Shell.requestExit
    split <;> rfl
  | _ => rfl

theorem scopesAsked (wait : RequestId → Wait) :
    let asked : Halt × Shell := match s.awaitLine c with
      | (.ok request, s) => (.waiting (wait request), s)
      | (.error failure, s) => (.ended (.failed failure), s)
    asked.2.scopes = s.scopes := by
  have same := scopesAwaitLine s c
  dsimp only
  split <;> simpa [*] using same

variable {s} {c}

theorem scopesPerform (h : Clean s) {p : Program} (tidy : Tidy p) (left : Nat) :
    (perform c left p s).2.scopes = s.scopes := by
  induction p generalizing left s with
  | finish | fail | crash => rfl
  | print kind text next ih =>
    exact (ih _ (cleanPrint h c kind tidy.1) (tidy.2 _) _).trans (scopesPrintAt _ _ _ _ _)
  | update group text next ih =>
    exact (ih _ (cleanUpdate h c group tidy.1) (tidy.2 _) _).trans (scopesUpdate _ _ _ _)
  | delete group next ih =>
    exact (ih _ (cleanDelete h c group) (tidy _) _).trans (scopesDelete _ _ _)
  | clear next ih => exact (ih (cleanClear h c) tidy _).trans (scopesClear _ _)
  | replay groups next ih =>
    exact (ih (cleanReplay h c tidy.1) tidy.2 _).trans (scopesReplay _ _ _)
  | inspect next ih => exact ih _ h (tidy (s.view c) (jobsListed h.jobs false)) _
  | change what next ih => exact (ih (cleanChange h c.session what) tidy _).trans (scopesDo _ _ _)
  | kill job next ih => exact (ih _ (cleanKill h job) (tidy _) _).trans (scopesKill _ _)
  | roll sides next ih =>
    have rolled := cleanRoll h sides
    have same := scopesRoll s sides
    unfold perform
    generalize s.roll sides = roll at rolled same ⊢
    exact (ih _ rolled (tidy _) _).trans same
  | onCancel text next ih => exact tidy.elim
  | sleep span stopped next stoppedIh nextIh =>
    unfold perform
    split
    · exact stoppedIh h tidy.1 _
    · split
      · rfl
      · split
        · exact nextIh h tidy.2 _
        · rfl
  | readLine next ih =>
    unfold perform
    exact scopesAsked s c fun request => .line request next
  | confirm message next ih =>
    unfold perform
    exact (scopesAsked _ c fun request => .answer request next).trans (scopesPrintAt _ _ _ _ _)
  | awaitJob job next ih =>
    unfold perform
    split
    · rename_i seen
      exact ih _ h (tidy _ (jobsWatched h.jobs seen)) _
    · rfl
    · split <;> rfl
  | awaitCancel next ih =>
    unfold perform
    split
    · exact ih h tidy _
    · rfl

theorem scopesTakeLine (h : Clean s) (request : RequestId) {next : Text → Shell → Halt × Shell}
    (goes : ∀ text t, Clean t → (next text t).2.scopes = t.scopes) :
    (takeLine request s next).2.scopes = s.scopes := by
  unfold takeLine
  split
  · exact goes _ _ (h.same rfl rfl rfl)
  · rfl
  · rfl

theorem scopesProceed (h : Clean s) {wait : Wait} (tidy : WaitTidy wait) :
    (proceed c s wait).2.scopes = s.scopes := by
  cases wait with
  | sleep due stopped next => exact scopesPerform h tidy.2 _
  | line request next =>
    exact scopesTakeLine h request fun text t clean => scopesPerform clean (tidy text) _
  | answer request next =>
    refine scopesTakeLine h request fun text t clean => ?_
    split
    · exact scopesPerform clean (tidy true) _
    · exact scopesPerform clean (tidy false) _
    · exact (scopesAsked _ c fun request => .answer request next).trans (scopesPrintAt _ _ _ _ _)
  | job watch next =>
    have again : Tidy (.awaitJob watch.job next) := tidy
    exact scopesPerform h again _
  | cancel next => exact scopesPerform h tidy _

theorem scopesAbort (h : Clean s) {wait : Wait} (tidy : WaitTidy wait) :
    (abort c s wait).2.scopes = s.scopes := by
  cases wait with
  | sleep due stopped next => exact scopesPerform h tidy.1 _
  | line | answer | job => rfl
  | cancel next => exact scopesPerform h tidy _

theorem scopesGoOn (h : Clean s) {wait : Wait} (tidy : WaitTidy wait) (tie : Tie) :
    (goOn tie c wait s).2.scopes = s.scopes := by
  unfold goOn
  split
  · exact scopesProceed h tidy
  · exact scopesProceed h tidy
  · exact scopesAbort h tidy
  · exact scopesAbort h tidy
  · rfl

end ConsoleShell.Shell
