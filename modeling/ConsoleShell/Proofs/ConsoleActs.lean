import ConsoleShell.Proofs.ConsoleFeed
import ConsoleShell.Proofs.GroupHistory
import ConsoleShell.Proofs.OutsideCalls
import ConsoleShell.Proofs.OwnRequests

/-! What a shell does to its consoles. Whoever has a turn acts on the consoles only as any user of them could:
sessions open and close, and groups are printed, replaced, removed and copied. So what holds of buffers by their
history holds of the buffers of every shell; above all, no two groups of a console have the same number. -/
namespace ConsoleShell.ConsoleActs
open ConsoleFeed (Act)
open GroupHistory (Numbered numberedPush numberedUpdate)
open Shell (Reachable Step)

/- One console comes of another by acts, apart from what subscribers have taken. -/
def Acts (before after : Console) : Prop := ∃ acts : List Act, after = acts.foldl Act.run before

variable {s t u : Shell} {c : Invocation} {d e : Console} {p : Program} {left : Nat}

theorem actsNothing (same : e = d) : Acts d e := ⟨[], same⟩

theorem actsOne (a : Act) : Acts d (a.run d) := ⟨[a], rfl⟩

theorem Acts.trans {f : Console} (first : Acts d e) (second : Acts e f) : Acts d f := by
  obtain ⟨acts, rfl⟩ := first
  obtain ⟨more, rfl⟩ := second
  exact ⟨acts ++ more, List.foldl_append.symm⟩

def Reaches (s t : Shell) : Prop := Acts s.console t.console

theorem reachesSame (same : t.console = s.console) : Reaches s t := actsNothing same

section Deeds

variable (s : Shell) (c : Invocation)

theorem printAtActs (session : SessionId) (job : Option JobId) (kind : OutputKind) (text : Text) :
    Reaches s (s.printAt session job kind text).2 := by
  cases job with
  | none => exact actsOne (.print session kind text)
  | some id => exact reachesSame rfl

theorem printActs (kind : OutputKind) (text : Text) : Reaches s (s.print c kind text).2 :=
  printAtActs s c.session c.origin.job? kind text

theorem updateActs (group : GroupId) (text : Text) : Reaches s (s.update c group text).2 := by
  unfold Shell.update
  split
  · exact actsOne (.update c.session group text)
  · exact reachesSame rfl

theorem deleteActs (group : GroupId) : Reaches s (s.delete c group).2 := by
  unfold Shell.delete
  split
  · exact actsOne (.delete c.session group)
  · exact reachesSame rfl

theorem clearActs : Reaches s (s.clear c) := by
  unfold Shell.clear
  split
  · exact actsOne (.clear c.session)
  · exact reachesSame rfl

theorem replayActs (groups : List Group) : Reaches s (s.replay c groups) := by
  unfold Shell.replay
  split
  · exact ⟨groups.map (.replay c.session), by rw [List.foldl_map]; rfl⟩
  · exact reachesSame rfl

theorem echoesActs (echoes : List Echo) : Reaches s (echoes.foldl Shell.echo s) := by
  induction echoes generalizing s with
  | nil => exact reachesSame rfl
  | cons e rest ih => exact (printAtActs s e.session e.job .output e.text).trans (ih _)

theorem onScopesActs {α : Type} (change : α × List (Note Echo) × Scopes Echo) :
    Reaches s (s.onScopes change).2 :=
  echoesActs { s with scopes := change.2.2 } _

theorem onCancelActs (text : Text) : Reaches s (s.onCancel c text) := by
  unfold Shell.onCancel
  dsimp only
  split
  · exact onScopesActs s _
  · split
    · exact printAtActs s _ _ _ _
    · exact reachesSame rfl

theorem killActs (id : JobId) : Reaches s (s.killJob id).2 :=
  echoesActs { s with jobs := (s.jobs.kill id s.wall).2.2 } _

theorem awaitLineActs : Reaches s (s.awaitLine c).2 := by
  unfold Shell.awaitLine
  split
  · exact reachesSame rfl
  · split <;> exact reachesSame rfl

theorem diceActs (dice : Nat → Nat) : Reaches s { s with dice } := reachesSame rfl

theorem rollActs (sides : Nat) : Reaches s (s.roll sides).2 := by
  unfold Shell.roll
  exact diceActs s _

theorem changeActs (session : SessionId) (what : Change) : Reaches s (s.change session what) := by
  cases what with
  | requestExit =>
    show Reaches s (s.requestExit session)
    unfold Shell.requestExit
    split <;> exact reachesSame rfl
  | _ => exact reachesSame rfl

end Deeds

theorem askedActs {wait : RequestId → Wait} :
    let asked : Halt × Shell := match s.awaitLine c with
      | (.ok request, s) => (.waiting (wait request), s)
      | (.error failure, s) => (.ended (.failed failure), s)
    Reaches s asked.2 := by
  have acts := awaitLineActs s c
  dsimp only
  split <;> simpa [*] using acts

theorem performActs : Reaches s (Shell.perform c left p s).2 := by
  induction p generalizing left s with
  | finish | fail | crash => exact reachesSame rfl
  | print kind text next ih => exact (printActs s c kind text).trans (ih _)
  | update group text next ih => exact (updateActs s c group text).trans (ih _)
  | delete group next ih => exact (deleteActs s c group).trans (ih _)
  | clear next ih => exact (clearActs s c).trans ih
  | replay groups next ih => exact (replayActs s c groups).trans ih
  | inspect next ih => exact ih _
  | change what next ih => exact (changeActs s c.session what).trans ih
  | kill job next ih => exact (killActs s job).trans (ih _)
  | roll sides next ih =>
    have acts := rollActs s sides
    unfold Shell.perform
    generalize s.roll sides = roll at acts ⊢
    exact acts.trans (ih _)
  | onCancel text next ih => exact (onCancelActs s c text).trans ih
  | sleep span stopped next stoppedIh nextIh =>
    unfold Shell.perform
    split
    · exact stoppedIh
    · split
      · exact reachesSame rfl
      · split
        · exact nextIh
        · exact reachesSame rfl
  | readLine next ih =>
    unfold Shell.perform
    exact askedActs
  | confirm message next ih =>
    unfold Shell.perform
    exact (printActs s c .output (Shell.question message)).trans askedActs
  | awaitJob job next ih =>
    unfold Shell.perform
    split
    · exact ih _
    · exact reachesSame rfl
    · split <;> exact reachesSame rfl
  | awaitCancel next ih =>
    unfold Shell.perform
    split
    · exact ih
    · exact reachesSame rfl

theorem takeLineActs {request : RequestId} {next : Text → Shell → Halt × Shell}
    (goes : ∀ text s, Reaches s (next text s).2) : Reaches s (Shell.takeLine request s next).2 := by
  unfold Shell.takeLine
  split
  · exact goes _ { s with requests := _ }
  · exact reachesSame rfl
  · exact reachesSame rfl

theorem proceedActs (wait : Wait) : Reaches s (Shell.proceed c s wait).2 := by
  cases wait with
  | line request next => exact takeLineActs fun _ _ => performActs
  | answer request next =>
    refine takeLineActs fun text s => ?_
    split
    · exact performActs
    · exact performActs
    · exact (printActs s c .output Shell.askAgain).trans askedActs
  | _ => exact performActs

theorem abortActs (wait : Wait) : Reaches s (Shell.abort c s wait).2 := by
  cases wait with
  | sleep | cancel => exact performActs
  | line | answer | job => exact reachesSame rfl

theorem goOnActs (tie : Shell.Tie) (wait : Wait) : Reaches s (Shell.goOn tie c wait s).2 := by
  unfold Shell.goOn
  split
  · exact proceedActs wait
  · exact proceedActs wait
  · exact abortActs wait
  · exact abortActs wait
  · exact reachesSame rfl

theorem concludeActs (s : Shell) (id : TaskId) (session : SessionId) (origin : Origin) (outcome : Outcome) :
    Reaches s (s.conclude id session origin outcome) := by
  unfold Shell.conclude
  split
  · dsimp only
    split
    · rename_i error
      exact printAtActs s session none .error (Markup.escape error.message)
    · exact reachesSame rfl
  · split <;> exact reachesSame rfl

theorem leaveActs (id : TaskId) (run : Halt × Shell) : Reaches run.2 (Shell.leave id c run) := by
  obtain ⟨halt, t⟩ := run
  unfold Shell.leave
  cases halt with
  | waiting wait | yielded rest => exact reachesSame rfl
  | ended ending =>
    dsimp only
    split
    · exact concludeActs _ _ _ _ _
    · split <;> exact reachesSame rfl
    · exact reachesSame rfl

theorem startJobActs (s : Shell) (session : SessionId) (line : Text) (piped : Option (List Text)) :
    Reaches s (s.startJob session line piped).2 := by
  unfold Shell.startJob
  dsimp only
  split <;> exact reachesSame rfl

theorem lookActs (s : Shell) (id : TaskId) (job : JobId) : Reaches s (s.look id job) := by
  unfold Shell.look
  split <;> exact reachesSame rfl

theorem dispatchActs (s : Shell) (id : TaskId) (session : SessionId) (origin : Origin) (line : Text)
    (piped : Option (List Text)) : Reaches s (s.dispatch id session origin line piped) := by
  unfold Shell.dispatch
  split
  · exact concludeActs s _ _ _ _
  · exact concludeActs s _ _ _ _
  · exact (performActs (s := s)).trans (leaveActs id _)

theorem startLineActs (s : Shell) (id : TaskId) (session : SessionId) (typed : Text) (piped : Option (List Text)) :
    Reaches s (s.startLine id session typed piped) := by
  unfold Shell.startLine
  dsimp only
  split
  · exact reachesSame rfl
  · have remembered : Reaches s (s.remember session (Text.trim typed)) := reachesSame rfl
    split
    · rename_i assignment store made
      obtain ⟨data, -, made⟩ := Option.bind_eq_some_iff.mp made
      obtain ⟨⟨_, stored⟩, -, same⟩ := Option.bind_eq_some_iff.mp made
      cases same
      exact remembered.trans (printAtActs _ session none .output _)
    · split
      · exact remembered.trans ((startJobActs _ session _ piped).trans (printAtActs _ session none .output _))
      · exact remembered.trans ((onScopesActs _ _).trans (dispatchActs _ _ _ _ _ _))

theorem resumeActs (s : Shell) (tie : Shell.Tie) (id : TaskId) : Reaches s (s.resume tie id) := by
  unfold Shell.resume
  split
  · exact reachesSame rfl
  · split
    · have withdrawn : Reaches s (s.withdraw id) := reachesSame rfl
      dsimp only
      split
      · exact withdrawn.trans (startLineActs _ _ _ _ _)
      · exact withdrawn.trans (dispatchActs _ _ _ _ _ _)
      · exact withdrawn.trans ((performActs (s := s.withdraw id)).trans (leaveActs id _))
      · exact withdrawn.trans ((goOnActs tie _ (s := s.withdraw id)).trans (leaveActs id _))
      · exact withdrawn.trans (lookActs _ _ _)
    · exact reachesSame rfl

def AllNumbered (c : Console) : Prop := ∀ session b, c.buffer? session = some b → Numbered b

theorem numberedSet (all : AllNumbered d) {b : Buffer} (numbered : Numbered b) (session : SessionId) :
    AllNumbered (d.setBuffer session b) := by
  intro other found there
  change (d.buffers.insert session b).get? other = some found at there
  rw [Dict.getInsert] at there
  split at there
  · exact Option.some.inj there ▸ numbered
  · exact all other found there

theorem numberedPushed (all : AllNumbered d) (session : SessionId) (kind : OutputKind) (lines : List Line) :
    AllNumbered (d.pushLines session kind lines).2 := by
  unfold Console.pushLines
  split
  · exact all
  · rename_i b found
    exact numberedSet all (numberedPush (all session b found) kind lines) session

theorem numberedAct (all : AllNumbered d) (a : Act) : AllNumbered (a.run d) := by
  cases a with
  | openSession session =>
    show AllNumbered (d.open session)
    unfold Console.open
    split
    · exact all
    · exact numberedSet all (show Numbered Buffer.empty from List.Sublist.slnil) session
  | print session kind text => exact numberedPushed all session kind (Render.text kind text)
  | replay session group => exact numberedPushed all session group.kind group.lines
  | update session group text =>
    show AllNumbered (d.update session group text).2
    unfold Console.update
    split
    · exact all
    · rename_i b found
      have after := numberedUpdate (all session b found) group text
      split
      · rename_i changed same
        rw [same] at after
        exact numberedSet all after session
      · exact all
      · exact all
  | delete session group =>
    show AllNumbered (d.delete session group).2
    unfold Console.delete
    split
    · exact all
    · rename_i b found
      have after : Numbered (b.delete group).2 := (List.filter_sublist.map _).trans (all session b found)
      split
      · rename_i rest same
        rw [same] at after
        exact numberedSet all after session
      · exact all
  | clear session =>
    show AllNumbered (d.clear session)
    unfold Console.clear
    split
    · exact all
    · rename_i b found
      exact numberedSet all (show Numbered b.clear from List.nil_sublist _) session
  | close session =>
    intro other b found
    change (d.buffers.erase session).get? other = some b at found
    rw [Dict.getErase] at found
    split at found
    · cases found
    · exact all other b found

theorem numberedActs (all : AllNumbered d) (acts : Acts d e) : AllNumbered e := by
  obtain ⟨acts, rfl⟩ := acts
  induction acts generalizing d with
  | nil => exact all
  | cons a rest ih => exact ih (numberedAct all a)

theorem numberedReachable (reachable : Reachable s) : AllNumbered s.console := by
  induction reachable with
  | start made =>
    obtain ⟨registry, rfl⟩ := Shell.registerElsewhere made
    exact fun _ _ found => nomatch found
  | @step s t before move all =>
    have reached (acts : Reaches s t) : AllNumbered t.console := numberedActs all acts
    cases move with
    | openSession => exact numberedActs all (actsOne (.openSession _))
    | closeSession session =>
      obtain ⟨ready, closed⟩ := Shell.closedQuietly (Shell.soundReachable before).toClean session
      rw [closed]
      exact numberedActs all (actsOne (.close session))
    | input session line =>
      rcases Shell.takenIn s session line with ⟨ready, taken⟩ | dispatched
      · rw [taken]
        exact all
      · rw [dispatched]
        exact all
    | cancel session => exact reached (onScopesActs s _)
    | createJob session line => exact reached (startJobActs s session line none)
    | killJob id => exact reached (killActs s id)
    | watchJob id => exact numberedActs (d := s.newTask.2.console) all (lookActs s.newTask.2 s.newTask.1 id)
    | resume tie id => exact reached (resumeActs s tie id)
    | _ => exact all

end ConsoleShell.ConsoleActs
