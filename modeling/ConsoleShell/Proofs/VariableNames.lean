import ConsoleShell.Proofs.Assignments
import ConsoleShell.Proofs.SessionTables
import ConsoleShell.Proofs.TypedLines

/-! One notion of a variable's name. A line assigns to a name, a reference finds it, and a command accepts it
exactly if it is a proper name; so whatever lines and answers have put into a session can be read and
removed there. -/
namespace ConsoleShell.VariableNames
open Variable
open Actions (Each Called TaskEach Naming)
open Markup (entity escape)
open Shell (Provided Reachable)
open SessionTables (Respects)
open TypedRuns (External)

variable {name value : Text} {v : Variables} {s t : Shell} {session : SessionId}

theorem boundName {line : Text} (bound : Assignment.readBinding? line = some (name, value)) :
    isName name = true := by
  unfold Assignment.readBinding? at bound
  obtain ⟨⟨first, rest⟩, taken, later⟩ := Option.bind_eq_some_iff.mp bound
  obtain ⟨typed, -, same⟩ := Option.bind_eq_some_iff.mp later
  split at same
  · contradiction
  · cases same
    exact (takenName taken).2

theorem readName {line : Text} {a : Assignment} (read : Assignment.read? line = some a) :
    isName a.name = true := by
  unfold Assignment.read? at read
  dsimp only at read
  split at read
  · rename_i exports
    cases read
    unfold Assignment.readExport? at exports
    obtain ⟨rest, -, bound⟩ := Option.bind_eq_some_iff.mp exports
    split at bound
    · exact boundName bound
    · contradiction
  · obtain ⟨⟨name, value⟩, bound, rfl⟩ := Option.map_eq_some_iff.mp read
    exact boundName bound

theorem assignName {line : Text} {a : Assignment} {after : Variables}
    (assigns : v.assign? line = some (a, after)) : isName a.name = true := by
  obtain ⟨typed, read, made⟩ := Option.bind_eq_some_iff.mp assigns
  have proper := readName read
  obtain ⟨target, name, value⟩ := typed
  cases target <;> cases made <;> exact proper

theorem assignsNamed (v : Variables) (line : '\n' ∉ value) :
    (∃ a after, v.assign? (name ++ '=' :: value) = some (a, after) ∧ a.name = name) ↔ isName name = true := by
  constructor
  · rintro ⟨a, after, assigns, rfl⟩
    exact assignName assigns
  · intro proper
    unfold Variables.assign?
    rw [Assignments.readNamed proper line]
    exact ⟨_, _, rfl, rfl⟩

theorem readsNamed : Reference.read? (Reference.text ⟨.braced, name⟩) = some ⟨.braced, name⟩ ↔
    isName name = true := by
  constructor
  · intro read
    exact (Reference.readSound read).1
  · intro proper
    have ends : Reference.Ends ⟨.braced, name⟩ [] := ⟨nofun, nofun⟩
    have read := Reference.readWritten proper ends
    rwa [List.append_nil] at read

theorem entityKept {c : Char} (absent : '&' ∉ entity c) : entity c = [c] := by
  unfold entity at absent ⊢
  split <;> simp_all

theorem escapeKept {text : Text} (kept : ∀ c ∈ text, entity c = [c]) : escape text = text := by
  unfold escape
  rw [List.flatMap_congr kept]
  exact List.flatMap_singleton' text

theorem entityName {c : Char} (continues : continuesName c = true) : entity c = [c] := by
  unfold entity
  split <;> first | rfl | contradiction

theorem escapeName (proper : isName name = true) : escape name = name :=
  escapeKept fun c mem => entityName (Assignments.nameContinues proper c mem)

theorem escapedName : isName (escape name) = true ↔ isName name = true := by
  constructor
  · intro proper
    have absent : '&' ∉ escape name := fun mem =>
      absurd (Assignments.nameContinues proper '&' mem) (by decide)
    have kept : ∀ c ∈ name, entity c = [c] := fun c mem =>
      entityKept fun inside => absent (List.mem_flatMap.mpr ⟨c, mem, inside⟩)
    rwa [escapeKept kept] at proper
  · intro proper
    rwa [escapeName proper]

def Named (v : Variables) : Prop := ∀ name value, v.session.get? name = some value → isName name = true

def AllNamed (sessions : Dict SessionId Session) : Prop :=
  ∀ session data, sessions.get? session = some data → Named data.store

theorem namedSet (named : Named v) (proper : isName name = true) (value : Text) :
    Named (v.setSession name value) := by
  intro other found there
  unfold Variables.setSession at there
  rw [Dict.getInsert] at there
  split at there
  · rename_i same
    exact same ▸ proper
  · exact named other found there

theorem namedUnset (named : Named v) (name : Text) : Named (v.unsetSession name) := by
  intro other found there
  unfold Variables.unsetSession at there
  rw [Dict.getErase] at there
  split at there
  · contradiction
  · exact named other found there

theorem namedAssigned {line : Text} {a : Assignment} {after : Variables} (named : Named v)
    (assigns : v.assign? line = some (a, after)) : Named after := by
  have proper := assignName assigns
  rw [Assignments.assignStored assigns]
  unfold Assignments.stored
  split
  · exact namedSet named proper _
  · exact named

theorem namedInitial (config : Config) : Named config.initialVariables := by
  have kept {f : Variables → Text × Text → Variables} (same : ∀ v entry, (f v entry).session = v.session)
      (entries : List (Text × Text)) (v : Variables) : (entries.foldl f v).session = v.session := by
    induction entries generalizing v with
    | nil => rfl
    | cons entry rest ih => exact (ih _).trans (same v entry)
  have empty : config.initialVariables.session = .empty := by
    unfold Config.initialVariables
    refine kept ?_ _ _
    exact fun _ _ => rfl
  intro name value there
  rw [empty] at there
  contradiction

theorem namedInserted {sessions : Dict SessionId Session} {data : Session} (held : AllNamed sessions)
    (named : Named data.store) (session : SessionId) : AllNamed (sessions.insert session data) := by
  intro other found there
  rw [Dict.getInsert] at there
  split at there
  · exact Option.some.inj there ▸ named
  · exact held _ _ there

theorem namedErased {sessions : Dict SessionId Session} (held : AllNamed sessions) (session : SessionId) :
    AllNamed (sessions.erase session) := by
  intro other data there
  rw [Dict.getErase] at there
  split at there
  · contradiction
  · exact held _ _ there

theorem namedOnSession {change : Session → Session}
    (keeps : ∀ data, s.sessions.get? session = some data → Named data.store → Named (change data).store)
    (held : AllNamed s.sessions) : AllNamed (s.onSession session change).sessions := by
  intro other data there
  unfold Shell.onSession at there
  rw [Dict.getModify] at there
  split at there
  · rename_i own
    obtain ⟨before, found, rfl⟩ := Option.map_eq_some_iff.mp there
    exact keeps before (own ▸ found) (held _ _ found)
  · exact held _ _ there

theorem namingRespects {p : Program} (naming : Naming (fun _ => True) p) : Respects (fun sessions _ => AllNamed sessions) session p := by
  cases p with
  | change what next =>
    intro s held
    cases what with
    | setVariable name value => exact namedOnSession (fun _ _ named => namedSet named naming value) held
    | unsetVariable name => exact namedOnSession (fun _ _ named => namedUnset named name) held
    | setEnvironment | unsetEnvironment | clearHistory => exact namedOnSession (fun _ _ named => named) held
    | setAlias | removeAlias | clearFinishedJobs | setGodMode => exact held
    | requestExit =>
      change AllNamed (s.requestExit session).sessions
      unfold Shell.requestExit
      split <;> exact held
  | _ => trivial

theorem everyRespects (session : SessionId) : Actions.Every (Respects (fun sessions _ => AllNamed sessions) session) :=
  fun d mem arguments caller =>
    Actions.calledMono (Actions.everyNaming d mem arguments caller) fun _ => namingRespects

theorem dispatchNamed (provided : Provided s.registry.commands) (held : AllNamed s.sessions) (id : TaskId)
    (session : SessionId) (origin : Origin) (line : Text) (piped : Option (List Text)) :
    AllNamed (s.dispatch id session origin line piped).sessions := by
  unfold Shell.dispatch
  split
  · rw [(SessionTables.concludeAlone _ _ _ _ _).sessions]
    exact held
  · rw [(SessionTables.concludeAlone _ _ _ _ _).sessions]
    exact held
  · rename_i call read
    dsimp only
    rw [(SessionTables.leaveAlone _ _ _).sessions]
    rcases Actions.calledEvery (everyRespects session) provided read ⟨origin.job?, piped⟩ with crash | each
    · rw [crash]
      exact held
    · exact SessionTables.performs (c := ⟨session, origin, _⟩) each Shell.fullTurn held

theorem assignedNamed (held : AllNamed s.sessions) {line : Text} {a : Assignment}
    (assigns : s.assign? session line = some (a, t)) : AllNamed t.sessions := by
  obtain ⟨data, there, made⟩ := Option.bind_eq_some_iff.mp assigns
  obtain ⟨⟨assignment, store⟩, stored, same⟩ := Option.bind_eq_some_iff.mp made
  cases same
  exact namedOnSession (fun _ _ _ => namedAssigned (held _ _ there) stored) held

theorem startNamed (provided : Provided s.registry.commands) (held : AllNamed s.sessions) (id : TaskId)
    (session : SessionId) (typed : Text) (piped : Option (List Text)) :
    AllNamed (s.startLine id session typed piped).sessions := by
  have remembered : AllNamed (s.remember session (Text.trim typed)).sessions :=
    namedOnSession (fun _ _ named => named) held
  have kept : (s.remember session (Text.trim typed)).registry = s.registry := rfl
  unfold Shell.startLine
  dsimp only
  generalize s.remember session (Text.trim typed) = u at remembered kept
  split
  · exact held
  · split
    · rename_i assigns
      change AllNamed (Shell.printAt _ _ _ _ _).2.sessions
      rw [(SessionTables.printAtAlone _ _ _ _ _).sessions]
      exact assignedNamed remembered assigns
    · split
      · change AllNamed (Shell.printAt _ _ _ _ _).2.sessions
        rw [(SessionTables.printAtAlone _ _ _ _ _).sessions, (SessionTables.startJobAlone _ _ _ _).sessions]
        exact remembered
      · have begun := (SessionTables.onScopesAlone u (u.scopes.begin session)).sessions
        have commands := (Shell.keptOnScopes u (u.scopes.begin session)).commands
        exact dispatchNamed (commands.trans (congrArg _ kept) ▸ provided) (begun.symm ▸ remembered) _ _ _ _ _

theorem turnNamed (h : Reachable s) (held : AllNamed s.sessions) (tie : Shell.Tie) (id : TaskId) :
    AllNamed (s.resume tie id).sessions := by
  have provided := (Shell.soundReachable h).provided
  have under (session : SessionId) := Actions.eachReachable (everyRespects session) h
  unfold Shell.resume
  split
  · exact held
  · rename_i task stands
    have passes (session : SessionId) := under session _ (Shell.lookedUp stands)
    dsimp only
    split
    · cases task with
      | line session typed piped => exact startNamed (s := s.withdraw id) provided held _ _ _ _
      | job session job signal text piped => exact dispatchNamed (s := s.withdraw id) provided held _ _ _ _ _
      | program c program =>
        dsimp only
        rw [(SessionTables.leaveAlone _ _ _).sessions]
        exact SessionTables.performs (s := s.withdraw id) (passes c.session).2.2 _ held
      | waiting c wait =>
        dsimp only
        rw [(SessionTables.leaveAlone _ _ _).sessions]
        exact SessionTables.goesOn (s := s.withdraw id) (passes c.session).2 tie held
      | watcher watch =>
        dsimp only
        rw [(SessionTables.lookAlone _ _ _).sessions]
        exact held
    · exact held

theorem openedNamed (held : AllNamed s.sessions) : AllNamed s.openSession.2.sessions := by
  have named := namedInitial s.config
  generalize store : s.config.initialVariables = v at named
  have same : s.openSession.2.sessions = s.sessions.insert ⟨s.sessionCount⟩ { store := v } := by
    rw [← store]
    rfl
  rw [same]
  exact namedInserted held named _

def Stores : External → Prop
  | .setStore _ _ => True
  | _ => False

theorem callNamed (h : Reachable s) (held : AllNamed s.sessions) {call : External} (types : ¬ Stores call) :
    AllNamed (call.run s).sessions := by
  cases call with
  | setStore => exact absurd trivial types
  | openSession => exact openedNamed held
  | closeSession session =>
    obtain ⟨ready, closed⟩ := Shell.closedQuietly (Shell.soundReachable h).toClean session
    change AllNamed (s.closeSession session).sessions
    rw [closed]
    exact namedErased held session
  | input session line =>
    change AllNamed (s.handleInput session line).2.sessions
    rcases Shell.takenIn s session line with ⟨ready, taken⟩ | dispatched
    · rw [taken]
      exact held
    · rw [dispatched]
      exact held
  | cancel session => exact (SessionTables.onScopesAlone s (s.scopes.cancel session)).sessions.symm ▸ held
  | createJob session line => exact (SessionTables.startJobAlone s session line none).sessions.symm ▸ held
  | killJob id => exact (SessionTables.killAlone s id).sessions.symm ▸ held
  | watchJob id => exact (SessionTables.lookAlone s.newTask.2 s.newTask.1 id).sessions.symm ▸ held
  | execute | clearFinished | setAliases | takeExit | resetState | subscribe | takeEvents => exact held

/- The shells that there can be without anybody who puts variables in place from outside: lines and answers
are typed, tasks have their turns, and time passes. -/
inductive Lined : Shell → Prop where
  | start {config : Config} {s : Shell} (made : Shell.ofDeclarations config Builtin.all = .ok s) : Lined s
  | call {s : Shell} (before : Lined s) (call : External) (types : ¬ Stores call) : Lined (call.run s)
  | turn {s : Shell} (before : Lined s) (tie : Shell.Tie) (id : TaskId) : Lined (s.resume tie id)
  | pass {s : Shell} (before : Lined s) (clock wall : Nat) (dice : Nat → Nat) :
      Lined (Shell.wake { s with clock, wall, dice })
  | schedule {s : Shell} (before : Lined s) (ready aside : List TaskId) (turnCount : Nat) :
      Lined { s with ready, aside, turnCount }

theorem linedReachable (lined : Lined s) : Reachable s := by
  induction lined with
  | start made => exact .start made
  | call before call types ih => exact ih.step (TypedRuns.externalStep _ call)
  | turn before tie id ih => exact ih.step (.resume _ tie id)
  | pass before clock wall dice ih => exact ih.step (.pass _ clock wall dice)
  | schedule before ready aside turnCount ih => exact ih.step (.schedule _ ready aside turnCount)

theorem linedNamed (lined : Lined s) : AllNamed s.sessions := by
  induction lined with
  | start made =>
    obtain ⟨registry, rfl⟩ := Shell.registerElsewhere made
    exact fun _ _ there => nomatch there
  | call before call types ih => exact callNamed (linedReachable before) ih types
  | turn before tie id ih => exact turnNamed (linedReachable before) ih tie id
  | pass | schedule => assumption

theorem expandsBraced (proper : isName name = true) (v : Variables) :
    v.expand (Reference.text ⟨.braced, name⟩) = v.value ⟨.braced, name⟩ := by
  have stands : Reference.read? (Reference.text ⟨.braced, name⟩ ++ []) = some ⟨.braced, name⟩ := by
    rw [List.append_nil]
    exact readsNamed.mpr proper
  have expanded := EscapedReferences.expandFirst stands id v
  rw [List.append_nil] at expanded
  exact expanded.trans (List.append_nil _)

def unsetSchema : Schema := ⟨[
  ((Flag.boolean "env").withAlias "e" |>.describedAs "Remove from the environment instead.",
    some (.boolean false))]⟩

def unsetCommand : Command Handler where
  name := "unset"
  description := "Remove session variables (or environment variables with -e)."
  hidden := false
  reading := .flags unsetSchema Builtin.unset.positionals
  handler := Builtin.runUnset

theorem unsetBuilt : Command.ofDeclaration Builtin.unset = .ok unsetCommand := rfl

theorem wordTaken (proper : isName name = true) (schema : Schema) :
    ArgumentScan.step schema (.start schema) name = .ok ((ArgumentScan.start schema).addPositional name) := by
  cases name with
  | nil => contradiction
  | cons first rest =>
    have dashless : first ≠ '-' := by
      rintro rfl
      contradiction
    simp [ArgumentScan.step, ArgumentScan.start, dashless]

theorem unsetParsed (proper : isName name = true) : ∃ a, unsetCommand.parse [name] = .ok a ∧
    ∀ caller, unsetCommand.handler a caller = .change (.unsetVariable name) .finish := by
  refine ⟨⟨(ArgumentScan.start unsetSchema).flags, [name]⟩, ?_, fun caller => ?_⟩
  · have word := wordTaken proper unsetSchema
    unfold Command.parse Arguments.parse unsetCommand
    dsimp only
    rw [List.foldlM_cons, word]
    unfold ArgumentScan.addPositional
    rw [escapeName proper]
    rfl
  · have required := (Actions.requiredName name).mpr proper
    generalize made : Arguments.mk (ArgumentScan.start unsetSchema).flags [name] = a
    have session : a.isOn "env" = false := by rw [← made]; rfl
    have word : a.positionals = [name] := by rw [← made]
    unfold unsetCommand Builtin.runUnset
    dsimp only
    rw [session, word]
    unfold Program.forEach Builtin.unsetArgument
    simp [required, Program.orFail]

theorem unsetStore {data : Session} (there : s.sessions.get? session = some data) (name : Text) :
    (s.change session (.unsetVariable name)).store session = data.store.unsetSession name := by
  have stored : (s.change session (.unsetVariable name)).sessions.get? session =
      (s.sessions.get? session).map fun data => { data with store := data.store.unsetSession name } :=
    (Dict.getModify _ _ _ _).trans (if_pos rfl)
  unfold Shell.store
  rw [stored, there]
  rfl

structure Usable (s : Shell) (session : SessionId) (v : Variables) (name value : Text) : Prop where
  proper : isName name = true
  expands : v.expand (Reference.text ⟨.braced, name⟩) = value
  removed : ∃ command arguments, s.registry.commands.get? "unset" = some command ∧
    command.parse [name] = .ok arguments ∧ ∀ origin piped,
      let run := Shell.perform ⟨session, origin, some command.name⟩ Shell.fullTurn
        (command.handler arguments ⟨origin.job?, piped⟩) s
      run.1 = .ended .finished ∧ ∀ other, (run.2.store session).session.get? other =
        if other = name then none else v.session.get? other

theorem usable (provided : Provided s.registry.commands) {data : Session}
    (there : s.sessions.get? session = some data) (proper : isName name = true)
    (found : data.store.session.get? name = some value) : Usable s session data.store name value := by
  have expands : data.store.expand (Reference.text ⟨.braced, name⟩) = value := by
    rw [expandsBraced proper]
    simp [Variables.value, Variables.lookup, Reference.readsEnvironmentOnly, found]
  obtain ⟨command, built, listed⟩ := provided.all Builtin.unset (by simp [Builtin.all])
  cases unsetBuilt.symm.trans built
  obtain ⟨arguments, parsed, handles⟩ := unsetParsed proper
  refine ⟨proper, expands, unsetCommand, arguments, listed, parsed, fun origin piped => ?_⟩
  rw [handles]
  refine ⟨rfl, fun other => ?_⟩
  change ((s.change session (.unsetVariable name)).store session).session.get? other = _
  rw [unsetStore there]
  exact Dict.getErase _ _ _

theorem oneNotion (lined : Lined s) :
    (∀ (v : Variables) (name value : Text), '\n' ∉ value →
      ((∃ a after, v.assign? (name ++ '=' :: value) = some (a, after) ∧ a.name = name) ↔
        isName name = true)) ∧
    (∀ name, Reference.read? (Reference.text ⟨.braced, name⟩) = some ⟨.braced, name⟩ ↔ isName name = true) ∧
    (∀ name, Builtin.requireName (escape name) = .ok () ↔ isName name = true) ∧
    ∀ session data, s.sessions.get? session = some data → ∀ name value,
      data.store.session.get? name = some value → Usable s session data.store name value := by
  refine ⟨fun v name value line => assignsNamed v line, fun name => readsNamed,
    fun name => (Actions.requiredName _).trans escapedName, fun session data there name value found => ?_⟩
  have provided := (Shell.soundReachable (linedReachable lined)).provided
  exact usable provided there (linedNamed lined session data there name value found) found

def assigned : Shell := (TypedLines.answered.handleInput ⟨0⟩ "y=' $x '").2.resume .event ⟨1⟩

theorem assignedLined : Lined assigned := by
  have typed {s : Shell} (lined : Lined s) (session : SessionId) (line : Text) (task : TaskId) :
      Lined ((s.handleInput session line).2.resume .event task) :=
    (lined.call (.input session line) id).turn .event _
  have opened : Lined Offstage.opened := (Lined.start (Shell.startedMade Config.standard)).call .openSession id
  exact typed (typed (typed opened _ _ _) _ _ _) _ _ _

theorem oneNotionAnswered :
    Usable assigned ⟨0⟩ (assigned.store ⟨0⟩) "x" "secret" ∧ Usable assigned ⟨0⟩ (assigned.store ⟨0⟩) "y" " $x " ∧
      ¬ ∃ a after, Variables.assign? {} "x-y=1" = some (a, after) ∧ a.name = "x-y" := by
  obtain ⟨assigns, -, -, uses⟩ := oneNotion assignedLined
  obtain ⟨stands, first, second⟩ : (assigned.sessions.get? ⟨0⟩).isSome = true ∧
      (assigned.store ⟨0⟩).session.get? "x" = some "secret" ∧
      (assigned.store ⟨0⟩).session.get? "y" = some " $x " := by
    decide +kernel
  obtain ⟨data, there⟩ := Option.isSome_iff_exists.mp stands
  have same : assigned.store ⟨0⟩ = data.store := by
    unfold Shell.store
    rw [there]
    rfl
  rw [same] at first second ⊢
  exact ⟨uses _ _ there _ _ first, uses _ _ there _ _ second,
    mt (assigns {} "x-y" ['1'] (by decide)).mp (by decide)⟩

end ConsoleShell.VariableNames
