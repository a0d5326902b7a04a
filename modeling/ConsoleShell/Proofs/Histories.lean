import ConsoleShell.Proofs.Heedful
import ConsoleShell.Proofs.PlainRuns
import ConsoleShell.Proofs.SessionTables

/-! What becomes of the lines that a session keeps. A typed line is kept in its own turn, before anything
else is made of it, and a line that calls `history` and asks for it has all of them forgotten. Whatever
other commands do, in the foreground or as jobs, leaves every history as it was. -/
namespace ConsoleShell.Histories
open Actions (Each Heedful WaitEach)
open Heedful
open Shell (Provided Reachable)

def history? (s : Shell) (session : SessionId) : Option (List Text) :=
  (s.sessions.get? session).map Session.history

def lastOf (limit : Nat) (lines : List Text) : List Text := lines.drop (lines.length - limit)

/- What a task that has not begun will have its session keep. -/
def due? (session : SessionId) : Shell.Task → Option Text
  | .line owner typed _ =>
    if owner = session ∧ Text.trim typed ≠ [] then some (Text.trim typed) else none
  | _ => none

def forgets (s : Shell) (session : SessionId) (line : Text) : Bool :=
  match s.readCall session line with
  | .ok (some call) => decide (Forgets call)
  | _ => false

def forgotten? (s : Shell) : Shell.Task → Option SessionId
  | .line session typed _ =>
    let line := Text.trim typed
    if s.assign? session line = none ∧ Background.command? line = none ∧ forgets s session line then
      some session
    else none
  | .job session _ _ line _ => if forgets s session line then some session else none
  | _ => none

variable {s t u : Shell} {c : Invocation} {p : Program} {id : TaskId} {task : Shell.Task} {tie : Shell.Tie}
  {session other : SessionId} {line : Text}

theorem lastOfBounded (limit : Nat) (lines : List Text) : (lastOf limit lines).length ≤ limit := by
  unfold lastOf
  rw [List.length_drop]
  omega

/- What is kept and then forgotten again makes no difference to what is kept in the end. -/
theorem lastOfAppend (limit : Nat) (lines more : List Text) :
    lastOf limit (lastOf limit lines ++ more) = lastOf limit (lines ++ more) := by
  unfold lastOf
  have inside : lines.length - limit ≤ lines.length := Nat.sub_le _ _
  rw [← List.drop_append_of_le_length inside, List.drop_drop, List.length_drop]
  congr 1
  simp only [List.length_append]
  omega

structure Rewritten (change : SessionId → List Text → List Text) (s t : Shell) : Prop where
  config : t.config = s.config
  histories : ∀ session, history? t session = (history? s session).map (change session)

abbrev SameHistories (s t : Shell) : Prop := Rewritten (fun _ lines => lines) s t

variable {f g : SessionId → List Text → List Text}

theorem Rewritten.trans (first : Rewritten f s t) (second : Rewritten g t u) :
    Rewritten (fun session lines => g session (f session lines)) s u where
  config := second.config.trans first.config
  histories session := by
    rw [second.histories, first.histories, Option.map_map]
    rfl

theorem Rewritten.as (written : Rewritten f s t)
    (same : ∀ session lines, f session lines = g session lines) : Rewritten g s t :=
  ⟨written.config, fun session =>
    (written.histories session).trans (congrArg (Option.map · _) (funext (same session)))⟩

theorem sameSessions (config : t.config = s.config) (sessions : t.sessions = s.sessions) :
    SameHistories s t := by
  refine ⟨config, fun session => ?_⟩
  unfold history?
  rw [sessions]
  exact Option.map_id'.symm

theorem SameHistories.refl (s : Shell) : SameHistories s s := sameSessions rfl rfl

theorem SameHistories.trans (first : SameHistories s t) (second : Rewritten f t u) : Rewritten f s u :=
  Rewritten.trans first second

theorem onSessionWrites (s : Shell) (session : SessionId) (change : Session → Session)
    (write : List Text → List Text) (writes : ∀ data, (change data).history = write data.history) :
    Rewritten (fun other lines => if other = session then write lines else lines) s
      (s.onSession session change) := by
  refine ⟨rfl, fun other => ?_⟩
  unfold history? Shell.onSession
  rw [Dict.getModify, Option.map_map]
  by_cases own : other = session
  · simp [own, Function.comp_def, writes]
  · simp [own, Function.comp_def]

theorem sameStore (s : Shell) (session : SessionId) (change : Variables → Variables) :
    SameHistories s (s.onStore session change) :=
  (onSessionWrites s session (fun data => { data with store := change data.store }) (fun lines => lines)
    fun _ => rfl).as fun _ _ => ite_self _

theorem sameWithdraw (s : Shell) (id : TaskId) : SameHistories s (s.withdraw id) := sameSessions rfl rfl

theorem samePrintAt (s : Shell) (session : SessionId) (job : Option JobId) (kind : OutputKind)
    (text : Text) : SameHistories s (s.printAt session job kind text).2 := by
  cases job <;> exact sameSessions rfl rfl

theorem sameChange (s : Shell) (session : SessionId) {what : Change} (keeps : what ≠ .clearHistory) :
    SameHistories s (s.change session what) := by
  cases what with
  | clearHistory => exact absurd rfl keeps
  | setVariable | unsetVariable | setEnvironment | unsetEnvironment =>
    unfold Shell.change
    exact sameStore s session _
  | setAlias | removeAlias | clearFinishedJobs | setGodMode => exact sameSessions rfl rfl
  | requestExit =>
    change SameHistories s (s.requestExit session)
    unfold Shell.requestExit
    split <;> exact sameSessions rfl rfl

def KeptIn (s : Shell) (sessions : Dict SessionId Session) : Prop :=
  ∀ session, (sessions.get? session).map Session.history = history? s session

theorem sameKept (config : t.config = s.config) (kept : KeptIn s t.sessions) : SameHistories s t :=
  ⟨config, fun session => (kept session).trans Option.map_id'.symm⟩

theorem heedfulRespects {name : Text} (heedful : Heedful name p) :
    SessionTables.Respects (fun sessions _ => KeptIn s sessions) session p := by
  cases p with
  | change what next =>
    intro u kept other
    have keeps : what ≠ .clearHistory := by
      rintro rfl
      exact heedful
    exact (((sameChange u session keeps).histories other).trans Option.map_id').trans (kept other)
  | _ => trivial

theorem samePerform {name : Text} (each : Each (Heedful name) p) (left : Nat) :
    SameHistories s (Shell.perform c left p s).2 :=
  sameKept (Shell.keptPerform s c left p).config
    (SessionTables.performs (each.mono fun _ => heedfulRespects) left fun _ => rfl)

theorem sameGoOn {name : Text} {wait : Wait} (each : WaitEach (Heedful name) wait) (tie : Shell.Tie) :
    SameHistories s (Shell.goOn tie c wait s).2 :=
  sameKept (Shell.keptGoOn s c tie wait).config
    (SessionTables.goesOn (Actions.waitMono each fun _ => heedfulRespects) tie fun _ => rfl)

theorem sameConclude (s : Shell) (id : TaskId) (session : SessionId) (origin : Origin) (outcome : Outcome) :
    SameHistories s (s.conclude id session origin outcome) := by
  unfold Shell.conclude
  split
  · dsimp only
    split <;> exact sameSessions rfl rfl
  · split <;> exact sameSessions rfl rfl

theorem sameLeave (id : TaskId) (c : Invocation) (run : Halt × Shell) :
    SameHistories run.2 (Shell.leave id c run) := by
  obtain ⟨halt, t⟩ := run
  unfold Shell.leave
  cases halt with
  | waiting wait | yielded rest => exact sameSessions rfl rfl
  | ended ending =>
    dsimp only
    split
    · exact sameConclude _ _ _ _ _
    · split <;> exact sameSessions rfl rfl
    · exact sameSessions rfl rfl

theorem sameLook (s : Shell) (id : TaskId) (job : JobId) : SameHistories s (s.look id job) := by
  unfold Shell.look
  split <;> exact sameSessions rfl rfl

theorem dispatchWrites (provided : Provided s.registry.commands) (id : TaskId) (session : SessionId)
    (origin : Origin) (line : Text) (piped : Option (List Text)) :
    Rewritten (fun other lines => if forgets s session line ∧ other = session then [] else lines) s
      (s.dispatch id session origin line piped) := by
  have told : forgets s session line = match s.readCall session line with
    | .ok (some call) => decide (Forgets call)
    | _ => false := rfl
  have keeps {t : Shell} (keeps : forgets s session line = false) (same : SameHistories s t) :
      Rewritten (fun other lines => if forgets s session line ∧ other = session then [] else lines) s t :=
    same.as fun other lines => by simp [keeps]
  unfold Shell.dispatch
  split
  · rename_i read
    exact keeps (by rw [told, read]) (sameConclude _ _ _ _ _)
  · rename_i read
    exact keeps (by rw [told, read]) (sameConclude _ _ _ _ _)
  · rename_i call read
    rw [read] at told
    dsimp only at told ⊢
    by_cases clears : Forgets call
    · rw [forgetsOnly provided read clears]
      have forgotten : Rewritten (fun other lines => if other = session then [] else lines) s
          (s.change session .clearHistory) := onSessionWrites s session _ (fun _ => []) fun _ => rfl
      have left := sameLeave id ⟨session, origin, some call.command.name⟩
        (.ended .finished, s.change session .clearHistory)
      exact (forgotten.trans left).as fun other lines => by simp [told, clears]
    refine keeps (by simp [told, clears]) (.trans ?_ (sameLeave id _ _))
    by_cases quits : Quits call
    · rw [quitsOnly provided read quits]
      have other : Change.requestExit ≠ .clearHistory := nofun
      exact sameChange s session other
    · rcases calledHeedful provided read clears quits ⟨origin.job?, piped⟩ with crash | each
      · rw [crash]
        exact .refl s
      · exact samePerform each _

theorem rememberWrites (s : Shell) (session : SessionId) (line : Text) :
    Rewritten (fun other lines =>
      if other = session then lastOf s.config.historyLimit (lines ++ [line]) else lines) s
      (s.remember session line) :=
  onSessionWrites s session _ (fun lines => lastOf s.config.historyLimit (lines ++ [line])) fun _ => rfl

theorem assignedRemembered (s : Shell) (session : SessionId) (line : Text) :
    (s.remember session line).assign? session line = none ↔ s.assign? session line = none := by
  refine ⟨fun plain => Offstage.assignsNothing.mpr fun data there => ?_, Offstage.assignRemembered⟩
  have stored : (s.remember session line).sessions.get? session =
      (s.sessions.get? session).map _ :=
    (Dict.getModify _ _ _ _).trans (if_pos rfl)
  rw [there] at stored
  have same := Offstage.assignsNothing.mp plain _ stored
  exact same

theorem forgetsOpened (s : Shell) (id : TaskId) (session : SessionId) (typed : Text) :
    forgets (s.opened id session typed).2 session (Text.trim typed) =
      forgets s session (Text.trim typed) := by
  have twin : PlainRuns.Twin s (s.opened id session typed).2 := by
    obtain ⟨ready, same⟩ := Refusal.openedShell s id session typed
    have remembered := PlainRuns.twinRemember (s.withdraw id) session (Text.trim typed)
    rw [same]
    exact ⟨remembered.stores, remembered.registry, remembered.godMode⟩
  unfold forgets
  rw [PlainRuns.twinReads twin]

theorem calledNothing {typed : Text} {piped : Option (List Text)}
    (stands : s.tasks.lookup id = some (.line session typed piped)) (words : Text.trim typed ≠ [])
    (uncalled : ¬ (s.assign? session (Text.trim typed) = none ∧ Background.command? (Text.trim typed) = none))
    (tie : Shell.Tie) :
    SameHistories ((s.withdraw id).remember session (Text.trim typed)) (s.resume tie id) := by
  by_cases plain : s.assign? session (Text.trim typed) = none
  · obtain ⟨command, background⟩ := Option.ne_none_iff_exists'.mp fun unmarked => uncalled ⟨plain, unmarked⟩
    obtain ⟨console, outcomes, ready, started⟩ := Shell.startsJob tie stands plain background
    rw [started]
    exact sameSessions rfl rfl
  · have rest : (s.withdraw id).assign? session (Text.trim typed) ≠ none := fun still =>
      plain (Shell.assignSame (s := s.withdraw id) rfl still)
    obtain ⟨made, assigned⟩ := Option.ne_none_iff_exists'.mp (mt (assignedRemembered _ _ _).mp rest)
    have stored := assigned
    obtain ⟨data, -, stored⟩ := Option.bind_eq_some_iff.mp stored
    obtain ⟨⟨assignment, store⟩, -, same⟩ := Option.bind_eq_some_iff.mp stored
    cases same
    unfold Shell.resume Shell.startLine
    rw [stands]
    simp only [Shell.canMove, if_true, List.isEmpty_iff, words, if_false, assigned]
    exact (sameStore _ session fun _ => store).trans
      ((samePrintAt _ _ _ _ _).trans (sameSessions rfl rfl))

def kept (s : Shell) (task : Shell.Task) (session : SessionId) (lines : List Text) : List Text :=
  if forgotten? s task = some session then []
  else ((due? session task).map fun line => lastOf s.config.historyLimit (lines ++ [line])).getD lines

theorem keptSame (rests : forgotten? s task = none) (idle : ∀ session, due? session task = none)
    (session : SessionId) (lines : List Text) : lines = kept s task session lines := by
  simp [kept, rests, idle]

theorem lineWrites (provided : Provided s.registry.commands) {typed : Text} {piped : Option (List Text)}
    (stands : s.tasks.lookup id = some (.line session typed piped)) (tie : Shell.Tie) :
    Rewritten (kept s (.line session typed piped)) s (s.resume tie id) := by
  by_cases words : Text.trim typed = []
  · have blank : s.resume tie id = (s.withdraw id).recordOutcome id .ok := by
      unfold Shell.resume Shell.startLine
      rw [stands]
      simp [Shell.canMove, words]
    have unread : forgets s session [] = false := by
      unfold forgets
      rw [Crashes.emptyCalls]
    rw [blank]
    refine Rewritten.as (sameSessions rfl rfl) (keptSame ?_ fun other => ?_)
    · simp [forgotten?, words, unread]
    · simp [due?, words]
  by_cases calls : s.assign? session (Text.trim typed) = none ∧
      Background.command? (Text.trim typed) = none
  · have known : Provided (s.opened id session typed).2.registry.commands :=
      (Shell.keptOpened s id session typed).commands.symm ▸ provided
    have remembered := (sameWithdraw s id).trans (rememberWrites (s.withdraw id) session (Text.trim typed))
    have begun : SameHistories ((s.withdraw id).remember session (Text.trim typed))
        (s.opened id session typed).2 := by
      obtain ⟨ready, same⟩ := Refusal.openedShell s id session typed
      rw [same]
      exact sameSessions rfl rfl
    rw [Shell.startsCommand tie stands words calls.1 calls.2]
    refine ((Rewritten.trans remembered begun).trans (dispatchWrites known id session _ _ piped)).as
      fun other lines => ?_
    rw [forgetsOpened]
    by_cases own : other = session
    · simp [kept, forgotten?, due?, words, calls, own, Shell.withdraw]
    · simp [kept, forgotten?, due?, calls, own, Ne.symm own]
  · have remembered := (sameWithdraw s id).trans (rememberWrites (s.withdraw id) session (Text.trim typed))
    refine (remembered.trans (calledNothing stands words calls tie)).as fun other lines => ?_
    have keeps : forgotten? s (.line session typed piped) = none := if_neg fun all => calls ⟨all.1, all.2.1⟩
    by_cases own : other = session
    · simp [kept, keeps, due?, words, own, Shell.withdraw]
    · simp [kept, keeps, due?, own, Ne.symm own]

theorem turnWrites (h : Reachable s) (stands : s.tasks.lookup id = some task) (tie : Shell.Tie) :
    Rewritten (kept s task) s (s.resume tie id) := by
  have provided := (Shell.soundReachable h).provided
  have heedful := heedfulReachable h _ (Shell.lookedUp stands)
  cases task with
  | line session typed piped => exact lineWrites provided stands tie
  | job session job signal line piped =>
    have turn : s.resume tie id = (s.withdraw id).dispatch id session (.job job signal) line piped := by
      unfold Shell.resume
      rw [stands]
      rfl
    have written := dispatchWrites (s := s.withdraw id) provided id session (.job job signal) line piped
    have read : forgets (s.withdraw id) session line = forgets s session line := rfl
    rw [turn]
    refine ((sameWithdraw s id).trans written).as fun other lines => ?_
    rw [read]
    by_cases forgotten : forgets s session line <;> simp [kept, forgotten?, due?, forgotten, eq_comm]
  | program c program =>
    obtain ⟨name, -, each⟩ := heedful
    refine Rewritten.as ((sameWithdraw s id).trans ?_) (keptSame rfl fun _ => rfl)
    unfold Shell.resume
    rw [stands]
    exact (samePerform each _).trans (sameLeave id c _)
  | waiting c wait =>
    obtain ⟨name, -, each⟩ := heedful
    refine Rewritten.as ?_ (keptSame rfl fun _ => rfl)
    unfold Shell.resume
    rw [stands]
    dsimp only
    split
    · exact (sameWithdraw s id).trans ((sameGoOn each tie).trans (sameLeave id c _))
    · exact sameSessions rfl rfl
  | watcher watch =>
    refine Rewritten.as ?_ (keptSame rfl fun _ => rfl)
    unfold Shell.resume
    rw [stands]
    dsimp only
    split
    · exact (sameWithdraw s id).trans (sameLook _ id watch.job)
    · exact sameSessions rfl rfl

end ConsoleShell.Histories
