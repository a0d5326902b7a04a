import ConsoleShell.Builtin.All
import ConsoleShell.Proofs.Arguments
import ConsoleShell.Shell.Control

/-! The shells that there can be: one with the commands that every shell has, and whatever users, the
embedding program and time do to it. Tasks may go on in any order and at any time, so nothing here
depends on how they are scheduled. -/
namespace ConsoleShell.Shell

/- One thing that happens to a shell. The lists that only say whose turn is next may be anything. -/
inductive Step : Shell → Shell → Prop where
  | openSession (s) : Step s s.openSession.2
  | closeSession (s session) : Step s (s.closeSession session)
  | input (s session line) : Step s (s.handleInput session line).2
  | execute (s session line piped) : Step s (s.execute session line piped).2
  | cancel (s session) : Step s (s.cancel session).2
  | createJob (s session line) : Step s (s.createJob session line).2
  | killJob (s id) : Step s (s.killJob id).2
  | clearFinished (s) : Step s { s with jobs := s.jobs.clearFinished.2 }
  | watchJob (s id) : Step s (s.watchJob id).2
  | resume (s tie id) : Step s (s.resume tie id)
  | pass (s clock wall dice) : Step s (wake { s with clock, wall, dice })
  | schedule (s ready aside turnCount) : Step s { s with ready, aside, turnCount }
  | setStore (s session store) : Step s (s.onStore session fun _ => store)
  | setAliases (s aliases) : Step s { s with registry := { s.registry with aliases } }
  | takeExit (s session) : Step s (s.takeExit session).2
  | resetState (s) : Step s s.resetState
  | subscribe (s) : Step s s.subscribe
  | takeEvents (s) : Step s s.takeEvents.2

inductive Reachable : Shell → Prop where
  | start {config s} (made : ofDeclarations config Builtin.all = .ok s) : Reachable s
  | step {s t} (before : Reachable s) (move : Step s t) : Reachable t

theorem reachableTakeTurn {s : Shell} (h : Reachable s) : Reachable s.takeTurn := by
  unfold takeTurn
  split
  · exact h
  · exact (h.step (.schedule s s.ready s.aside (s.turnCount + 1))).step (.resume _ _ _)

theorem reachableTurn {s : Shell} (h : Reachable s) : Reachable (step s) := by
  unfold step
  dsimp only
  split
  · exact (reachableTakeTurn h).step (.schedule _ _ _ _)
  · exact reachableTakeTurn h

theorem reachableTurns {s : Shell} (h : Reachable s) (n : Nat) : Reachable (steps n s) := by
  induction n generalizing s with
  | zero => exact h
  | succ n ih =>
    unfold steps
    split
    · exact h
    · exact ih (reachableTurn h)

theorem reachableSettle {s : Shell} (h : Reachable s) : Reachable s.settle :=
  reachableTurns (h.step (.schedule s s.ready s.aside 0)) _

theorem reachableMove {s : Shell} (h : Reachable s) (time : Nat) : Reachable (s.moveTo time) :=
  reachableSettle (h.step (.pass s time s.wall s.dice))

theorem reachableUntil {s : Shell} (h : Reachable s) (stop : Shell → Bool) (limit left : Nat) :
    Reachable (runUntil stop limit left s) := by
  induction left generalizing s with
  | zero => exact h
  | succ left ih =>
    unfold runUntil
    split
    · exact h
    · split
      · split
        · exact ih (reachableMove h _)
        · exact reachableMove h limit
      · exact reachableMove h limit

theorem reachablePass {s : Shell} (h : Reachable s) (milliseconds : Nat) :
    Reachable (s.pass milliseconds) :=
  reachableUntil (reachableSettle h) _ _ _

theorem registerOne {s t : Shell} {d : Declaration} (made : s.register d = .ok t) :
    ∃ c, Command.ofDeclaration d = .ok c ∧
      t.registry.commands = s.registry.commands.insert d.name c := by
  obtain ⟨⟨known, registry⟩, registered, same⟩ := bindOk.mp made
  obtain ⟨c, built, put⟩ := bindOk.mp registered
  cases put
  cases same
  exact ⟨c, built, by rw [(Arguments.builtAs built).1]⟩

theorem registerElsewhere {declarations : List Declaration} {s t : Shell}
    (made : declarations.foldlM register s = .ok t) : ∃ registry, t = { s with registry } := by
  refine foldedKeeps (P := fun t => ∃ registry, t = { s with registry })
    (fun before d next registered held => ?_) made ⟨s.registry, rfl⟩
  obtain ⟨registry, rfl⟩ := held
  obtain ⟨⟨known, changed⟩, -, same⟩ := bindOk.mp registered
  cases same
  exact ⟨changed, rfl⟩

theorem registerOnly {P : Command Handler → Prop} {declarations : List Declaration} {s t : Shell}
    (made : declarations.foldlM register s = .ok t)
    (each : ∀ d ∈ declarations, ∀ c, Command.ofDeclaration d = .ok c → P c)
    (before : s.registry.commands.Every P) : t.registry.commands.Every P := by
  induction declarations generalizing s with
  | nil =>
    cases made
    exact before
  | cons d rest ih =>
    rw [List.foldlM_cons] at made
    obtain ⟨next, first, later⟩ := bindOk.mp made
    obtain ⟨c, built, put⟩ := registerOne first
    refine ih later (fun other mem => each other (List.mem_cons_of_mem _ mem)) ?_
    rw [put]
    exact Dict.everyInsert before (each d List.mem_cons_self c built) _

theorem registerOthers {declarations : List Declaration} {s t : Shell} {name : Text}
    (made : declarations.foldlM register s = .ok t) (absent : name ∉ declarations.map (·.name)) :
    t.registry.commands.get? name = s.registry.commands.get? name := by
  induction declarations generalizing s with
  | nil =>
    cases made
    rfl
  | cons d rest ih =>
    rw [List.foldlM_cons] at made
    obtain ⟨next, first, later⟩ := bindOk.mp made
    obtain ⟨c, built, put⟩ := registerOne first
    simp only [List.map_cons, List.mem_cons, not_or] at absent
    rw [ih later absent.2, put, Dict.getInsert, if_neg absent.1]

theorem registerAll {declarations : List Declaration} {s t : Shell}
    (made : declarations.foldlM register s = .ok t) (distinct : (declarations.map (·.name)).Nodup) :
    ∀ d ∈ declarations, ∃ c, Command.ofDeclaration d = .ok c ∧
      t.registry.commands.get? d.name = some c := by
  induction declarations generalizing s with
  | nil => exact fun _ mem => nomatch mem
  | cons d rest ih =>
    rw [List.foldlM_cons] at made
    obtain ⟨next, first, later⟩ := bindOk.mp made
    obtain ⟨absent, others⟩ := List.nodup_cons.mp distinct
    intro other mem
    rcases List.mem_cons.mp mem with rfl | mem
    · obtain ⟨c, built, put⟩ := registerOne first
      exact ⟨c, built, by rw [registerOthers later absent, put, Dict.getInsert, if_pos rfl]⟩
    · exact ih later others other mem

structure Provided (commands : Dict Text (Command Handler)) : Prop where
  only : commands.Every fun c => ∃ d ∈ Builtin.all, Command.ofDeclaration d = .ok c
  all : ∀ d ∈ Builtin.all, ∃ c, Command.ofDeclaration d = .ok c ∧ commands.get? d.name = some c

theorem provided {config : Config} {s : Shell} (made : ofDeclarations config Builtin.all = .ok s) :
    Provided s.registry.commands where
  only := registerOnly made (fun d mem _ built => ⟨d, mem, built⟩) Dict.everyEmpty
  all := registerAll made (by decide)

def started (config : Config) : Shell :=
  (ofDeclarations config Builtin.all).toOption.getD (ofConfig config)

theorem startedMade (config : Config) : ofDeclarations config Builtin.all = .ok (started config) := by
  suffices made : ∃ s, ofDeclarations config Builtin.all = .ok s by
    obtain ⟨s, made⟩ := made
    rw [started, made]
    rfl
  have sound : ∀ d ∈ Builtin.all, ∃ c, Command.ofDeclaration d = .ok c := by
    have computed : ∀ d ∈ Builtin.all, (Command.ofDeclaration d).isOk := by decide +kernel
    intro d mem
    have fine := computed d mem
    cases built : Command.ofDeclaration d with
    | error e => simp [built, Except.isOk, Except.toBool] at fine
    | ok c => exact ⟨c, rfl⟩
  unfold ofDeclarations
  generalize ofConfig config = s
  generalize Builtin.all = declarations at sound
  induction declarations generalizing s with
  | nil => exact ⟨s, rfl⟩
  | cons d rest ih =>
    obtain ⟨c, built⟩ := sound d List.mem_cons_self
    rw [List.foldlM_cons]
    have registered : ∃ next, s.register d = .ok next := by
      unfold Shell.register Registry.register
      rw [built]
      exact ⟨_, rfl⟩
    obtain ⟨next, first⟩ := registered
    rw [first]
    exact ih next fun other mem => sound other (List.mem_cons_of_mem _ mem)

theorem reachableStarted (config : Config) : Reachable (started config) :=
  .start (startedMade config)

end ConsoleShell.Shell
