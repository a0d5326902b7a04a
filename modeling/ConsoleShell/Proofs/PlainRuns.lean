import ConsoleShell.Proofs.Continuations
import ConsoleShell.Proofs.Refusal

/-! Plain commands, side by side. In two shells with the same variables, aliases, commands and god mode a
plain command does the same, whether it runs at a console or as a job: it comes to the same end, makes
the same changes and says the same things, only that these are heard in different places. -/
namespace ConsoleShell.PlainRuns
open Actions (Each Plain SameTables ChangesTables plainly)

structure Twin (a b : Shell) : Prop where
  stores : ∀ session,
    (b.sessions.get? session).map Session.store = (a.sessions.get? session).map Session.store
  registry : b.registry = a.registry
  godMode : b.godMode = a.godMode

variable {a b s t u : Shell}

theorem Twin.symm (twin : Twin a b) : Twin b a :=
  ⟨fun session => (twin.stores session).symm, twin.registry.symm, twin.godMode.symm⟩

theorem Twin.trans (first : Twin a b) (second : Twin b s) : Twin a s :=
  ⟨fun session => (second.stores session).trans (first.stores session),
    second.registry.trans first.registry, second.godMode.trans first.godMode⟩

theorem Twin.same (sessions : t.sessions = s.sessions) (registry : t.registry = s.registry)
    (godMode : t.godMode = s.godMode) : Twin s t :=
  ⟨fun _ => by rw [sessions], registry, godMode⟩

theorem Twin.store (twin : Twin a b) (session : SessionId) : b.store session = a.store session := by
  unfold Shell.store
  rw [twin.stores]

theorem twinRemember (s : Shell) (session : SessionId) (line : Text) :
    Twin s (s.remember session line) := by
  refine ⟨fun other => ?_, rfl, rfl⟩
  unfold Shell.remember Shell.onSession
  rw [Dict.getModify]
  split
  · rw [Option.map_map]
    rfl
  · rfl

theorem twinReads (twin : Twin a b) (session : SessionId) (line : Text) :
    b.readCall session line = a.readCall session line := by
  have expanded : b.expandLine session line = a.expandLine session line := by
    have stores := twin.stores session
    unfold Shell.expandLine
    cases left : a.sessions.get? session with
    | none =>
      rw [left, Option.map_none, Option.map_eq_none_iff] at stores
      rw [stores]
    | some data =>
      rw [left, Option.map_some] at stores
      obtain ⟨other, right, same⟩ := Option.map_eq_some_iff.mp stores
      rw [right]
      dsimp only
      rw [same]
  unfold Shell.readCall
  rw [expanded, twin.registry]

def contents (groups : List Group) : List (OutputKind × List Line) := groups.map fun g => (g.kind, g.lines)

def spoken (b : Buffer) (said : List (OutputKind × Text)) : Buffer :=
  said.foldl (fun b part => (b.print part.1 part.2).2) b

def rendered (said : List (OutputKind × Text)) : List (OutputKind × List Line) :=
  said.map fun part => (part.1, Render.text part.1 part.2)

theorem spokenGroups (b : Buffer) (said : List (OutputKind × Text)) :
    ∃ appended, (spoken b said).groups = b.groups ++ appended ∧ contents appended = rendered said := by
  induction said generalizing b with
  | nil => exact ⟨[], (List.append_nil _).symm, rfl⟩
  | cons part rest ih =>
    obtain ⟨appended, groups, same⟩ := ih (b.print part.1 part.2).2
    refine ⟨⟨⟨b.lastId + 1⟩, part.1, Render.text part.1 part.2⟩ :: appended, ?_, ?_⟩
    · exact groups.trans (List.append_assoc _ [_] _)
    · exact congrArg ((part.1, Render.text part.1 part.2) :: ·) same

def Heard (session : SessionId) (said : List (OutputKind × Text)) (s t : Shell) : Option JobId → Prop
  | none => t.console.buffer? session = (s.console.buffer? session).map (spoken · said)
  | some job => t.jobs.table.get? job =
      (s.jobs.table.get? job).map fun record => { record with output := spoken record.output said }

variable {session : SessionId} {job? : Option JobId} {said more : List (OutputKind × Text)}

theorem Heard.nothing (console : t.console = s.console) (jobs : t.jobs = s.jobs) :
    Heard session [] s t job? := by
  cases job? with
  | none => exact (congrArg (·.buffer? session) console).trans Option.map_id'.symm
  | some job => exact (congrArg (·.table.get? job) jobs).trans Option.map_id'.symm

theorem Heard.trans (first : Heard session said s t job?) (second : Heard session more t u job?) :
    Heard session (said ++ more) s u job? := by
  unfold Heard spoken at *
  cases job? with
  | none =>
    dsimp only at *
    rw [second, first, Option.map_map]
    simp [Function.comp_def]
  | some job =>
    dsimp only at *
    rw [second, first, Option.map_map]
    simp [Function.comp_def]

theorem heardPrint (s : Shell) (session : SessionId) (job? : Option JobId) (kind : OutputKind) (text : Text) :
    Heard session [(kind, text)] s (s.printAt session job? kind text).2 job? := by
  cases job? with
  | none =>
    change (s.console.print session kind text).2.buffer? session = _
    cases there : s.console.buffer? session with
    | none =>
      unfold Console.print Console.pushLines
      rw [there]
      exact there
    | some before => exact Refusal.printedGroup there kind text
  | some job =>
    change (s.jobs.print job kind text).2.table.get? job = _
    unfold Jobs.print Jobs.onOutput
    cases there : s.jobs.table.get? job with
    | none => exact there
    | some record =>
      dsimp only
      rw [Dict.getInsert, if_pos rfl]
      rfl

theorem plainAnywhere : ∀ d ∈ plainly, ∀ arguments piped job other,
    d.handler arguments ⟨job, piped⟩ = d.handler arguments ⟨other, piped⟩ := by
  simp only [plainly, List.forall_mem_cons]
  exact ⟨fun _ _ _ _ => rfl, fun _ _ _ _ => rfl, fun _ _ _ _ => rfl, fun _ _ _ _ => rfl,
    fun _ _ _ _ => rfl, fun _ _ _ _ => rfl, fun _ _ _ _ => rfl, fun _ _ _ _ => rfl,
    fun _ _ _ _ => rfl, fun _ _ _ _ => rfl, List.forall_mem_nil _⟩

/- How a plain command ends in two shells, and what it has done on its way. -/
structure Aligned (c d : Invocation) (a b : Shell) (ending : Ending) (said : List (OutputKind × Text))
    (run other : Halt × Shell) : Prop where
  left : run.1 = .ended ending
  right : other.1 = .ended ending
  lives : ending ≠ .crashed
  twin : Twin run.2 other.2
  heard : Heard c.session said a run.2 c.origin.job?
  captured : Heard d.session said b other.2 d.origin.job?

variable {c d : Invocation}

theorem alignedHere (twin : Twin a b) {ending : Ending} (lives : ending ≠ .crashed) :
    Aligned c d a b ending [] (.ended ending, a) (.ended ending, b) :=
  ⟨rfl, rfl, lives, twin, .nothing rfl rfl, .nothing rfl rfl⟩

theorem Aligned.after {x y : Shell} {ending : Ending} {run other : Halt × Shell}
    (aligned : Aligned c d x y ending more run other) (heard : Heard c.session said a x c.origin.job?)
    (captured : Heard d.session said b y d.origin.job?) :
    Aligned c d a b ending (said ++ more) run other :=
  ⟨aligned.left, aligned.right, aligned.lives, aligned.twin, heard.trans aligned.heard,
    captured.trans aligned.captured⟩

theorem twinView (twin : Twin a b) (same : d.session = c.session) : SameTables (a.view c) (b.view d) := by
  have store := twin.store c.session
  refine ⟨?_, ?_, ?_, twin.godMode.symm⟩
  · change a.store c.session = b.store d.session
    rw [same, store]
  · change a.registry.aliases = b.registry.aliases
    rw [twin.registry]
  · change (a.registry.list true).map Command.outline = (b.registry.list true).map Command.outline
    rw [twin.registry]

theorem twinOnStore (twin : Twin a b) (session : SessionId) (change : Variables → Variables) :
    Twin (a.onStore session change) (b.onStore session change) := by
  refine ⟨fun other => ?_, twin.registry, twin.godMode⟩
  have stores := twin.stores other
  unfold Shell.onStore Shell.onSession
  rw [Dict.getModify, Dict.getModify]
  split
  · have changed := congrArg (Option.map change) stores
    rw [Option.map_map, Option.map_map] at changed ⊢
    exact changed
  · exact stores

theorem twinChange (twin : Twin a b) (session : SessionId) {what : Change} (changes : ChangesTables what) :
    Twin (a.change session what) (b.change session what) := by
  have registry := twin.registry
  cases what with
  | setVariable name value => exact twinOnStore twin session fun v => v.setSession name value
  | unsetVariable name => exact twinOnStore twin session fun v => v.unsetSession name
  | setEnvironment name value => exact twinOnStore twin session fun v => v.setEnvironment name value
  | unsetEnvironment name => exact twinOnStore twin session fun v => v.unsetEnvironment name
  | setAlias name target => exact ⟨twin.stores, congrArg (·.setAlias name target) registry, twin.godMode⟩
  | removeAlias name => exact ⟨twin.stores, congrArg (·.removeAlias name) registry, twin.godMode⟩
  | setGodMode on => exact ⟨twin.stores, registry, rfl⟩
  | clearHistory | clearFinishedJobs | requestExit => exact changes.elim

theorem changeSilent (s : Shell) (owner : SessionId) {what : Change} (changes : ChangesTables what) :
    Heard session [] s (s.change owner what) job? := by
  cases what with
  | clearHistory | clearFinishedJobs | requestExit => exact changes.elim
  | _ => exact .nothing rfl rfl

theorem twinPrint (twin : Twin a b) (kind : OutputKind) (text : Text) :
    Twin (a.print c kind text).2 (b.print d kind text).2 := by
  unfold Shell.print Shell.printAt
  cases c.origin.job? <;> cases d.origin.job? <;> exact ⟨twin.stores, twin.registry, twin.godMode⟩

/- A plain command takes the same way in both shells, action by action. -/
theorem alignedPerform (twin : Twin a b) (same : d.session = c.session) {p : Program} (plain : Each Plain p)
    (n m : Nat) : ∃ ending said,
      Aligned c d a b ending said (Shell.perform c n p a) (Shell.perform d m p b) := by
  induction p generalizing a b with
  | finish => exact ⟨.finished, [], alignedHere twin (by simp)⟩
  | fail failure => exact ⟨.failed failure, [], alignedHere twin (by simp)⟩
  | print kind text next ih =>
    obtain ⟨constant, each⟩ := plain
    -- The number of the group is not the same, but the command does not look at it.
    have onward := constant (a.print c kind text).1 (b.print d kind text).1
    obtain ⟨ending, said, aligned⟩ := ih _ (twinPrint (c := c) (d := d) twin kind text) (each _)
    refine ⟨ending, (kind, text) :: said, ?_⟩
    have run := aligned.after (heardPrint a c.session c.origin.job? kind text)
      (heardPrint b d.session d.origin.job? kind text)
    rw [onward] at run
    unfold Shell.perform
    dsimp only
    rw [onward]
    exact run
  | inspect next ih =>
    obtain ⟨constant, each⟩ := plain
    have onward := constant _ _ (twinView twin same)
    obtain ⟨ending, said, aligned⟩ := ih (a.view c) twin (each _)
    refine ⟨ending, said, ?_⟩
    unfold Shell.perform
    rw [← onward]
    exact aligned
  | change what next ih =>
    obtain ⟨changes, each⟩ := plain
    have changed : Twin (a.change c.session what) (b.change d.session what) :=
      same.symm ▸ twinChange twin c.session changes
    obtain ⟨ending, said, aligned⟩ := ih changed each
    exact ⟨ending, said, aligned.after (changeSilent a _ changes) (changeSilent b _ changes)⟩
  | crash => exact plain.elim
  | _ => exact plain.1.elim

end ConsoleShell.PlainRuns
