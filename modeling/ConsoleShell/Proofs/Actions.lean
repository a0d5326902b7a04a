import ConsoleShell.Builtin.All

/-! What commands do, action by action. A test is asked of every action that a program may come to, whatever it
is told on its way. Most commands are brief: they run to their end without a pause. Those among them that
deal with variables, aliases and god mode alone are plain besides: where they run and when makes no
difference to them. The others stop when they are asked to while they pause. Only two of them ask for a
line, but for one that is asked to, none forgets what was typed, and a variable is set under a proper name
or not at all. -/
namespace ConsoleShell.Actions

def Each (P : Program → Prop) : Program → Prop
  | .finish => P .finish
  | .fail failure => P (.fail failure)
  | .crash => P .crash
  | .print kind text next => P (.print kind text next) ∧ ∀ group, Each P (next group)
  | .update group text next => P (.update group text next) ∧ ∀ there, Each P (next there)
  | .delete group next => P (.delete group next) ∧ ∀ there, Each P (next there)
  | .clear next => P (.clear next) ∧ Each P next
  | .replay groups next => P (.replay groups next) ∧ Each P next
  | .inspect next => P (.inspect next) ∧ ∀ view, Each P (next view)
  | .change what next => P (.change what next) ∧ Each P next
  | .kill job next => P (.kill job next) ∧ ∀ outcome, Each P (next outcome)
  | .roll sides next => P (.roll sides next) ∧ ∀ n, Each P (next n)
  | .onCancel text next => P (.onCancel text next) ∧ Each P next
  | .sleep span stopped next => P (.sleep span stopped next) ∧ Each P stopped ∧ Each P next
  | .readLine next => P (.readLine next) ∧ ∀ line, Each P (next line)
  | .confirm message next => P (.confirm message next) ∧ ∀ yes, Each P (next yes)
  | .awaitJob job next => P (.awaitJob job next) ∧ ∀ found, Each P (next found)
  | .awaitCancel next => P (.awaitCancel next) ∧ Each P next

variable {P Q : Program → Prop} {p next last : Program}

theorem Each.here (each : Each P p) : P p := by
  cases p with
  | finish | fail | crash => exact each
  | _ => exact each.1

theorem Each.mono (each : Each P p) (implies : ∀ p, P p → Q p) : Each Q p := by
  induction p with
  | finish | fail | crash => exact implies _ each
  | print kind text next ih | update group text next ih | delete group next ih | inspect next ih
  | kill job next ih | roll sides next ih | readLine next ih | confirm message next ih
  | awaitJob job next ih =>
    exact ⟨implies _ each.1, fun answer => ih answer (each.2 answer)⟩
  | clear next ih | replay groups next ih | change what next ih | onCancel text next ih
  | awaitCancel next ih =>
    exact ⟨implies _ each.1, ih each.2⟩
  | sleep span stopped next stoppedIh nextIh =>
    exact ⟨implies _ each.1, stoppedIh each.2.1, nextIh each.2.2⟩

theorem eachOrFail {α : Type} {result : Except Failure α} {next : α → Program}
    (fails : ∀ failure, P (.fail failure)) (each : ∀ a, Each P (next a)) :
    Each P (.orFail result next) := by
  cases result with
  | error failure => exact fails failure
  | ok a => exact each a

theorem eachForEach {α : Type} {items : List α} {body : α → Program → Program}
    (each : ∀ item next, Each P next → Each P (body item next)) (atEnd : Each P last) :
    Each P (.forEach items body last) := by
  unfold Program.forEach
  induction items with
  | nil => exact atEnd
  | cons item rest ih => exact each item _ ih

def Brief : Program → Prop
  | .crash | .onCancel _ _ | .sleep _ _ _ | .readLine _ | .confirm _ _ | .awaitJob _ _
  | .awaitCancel _ => False
  | _ => True

/- Of what a command sees, the part that is the same wherever and whenever it runs. -/
structure SameTables (v w : View) : Prop where
  store : v.store = w.store
  aliases : v.aliases = w.aliases
  commands : v.commands = w.commands
  godMode : v.godMode = w.godMode

def ChangesTables : Change → Prop
  | .setVariable _ _ | .unsetVariable _ | .setEnvironment _ _ | .unsetEnvironment _ | .setAlias _ _
  | .removeAlias _ | .setGodMode _ => True
  | .clearHistory | .clearFinishedJobs | .requestExit => False

def Plain : Program → Prop
  | .finish | .fail _ => True
  | .print _ _ next => ∀ a b, next a = next b
  | .inspect next => ∀ v w, SameTables v w → next v = next w
  | .change what _ => ChangesTables what
  | _ => False

def Slight : Program → Prop
  | .change .clearHistory _ | .change .requestExit _ => False
  | p => Brief p

def Naming (P : Program → Prop) : Program → Prop
  | .change (.setVariable name _) _ => Variable.isName name = true
  | p => P p

theorem namingHere (sets : ∀ name value next, P (.change (.setVariable name value) next))
    (naming : Naming P p) : P p := by
  unfold Naming at naming
  split at naming
  · exact sets _ _ _
  · exact naming

theorem namingMono (implies : ∀ p, P p → Q p) (naming : Naming P p) : Naming Q p := by
  unfold Naming at naming ⊢
  split at naming
  · exact naming
  · exact implies _ naming

theorem slightBrief (slight : Slight p) : Brief p := by
  unfold Slight at slight
  split at slight
  · trivial
  · trivial
  · exact slight

theorem plainSlight (plain : Plain p) : Slight p := by
  cases p with
  | change what next => cases what <;> trivial
  | _ => trivial

theorem plainSay {text : Text} (each : Each (Naming Plain) next) : Each (Naming Plain) (.say text next) :=
  ⟨fun _ _ => rfl, fun _ => each⟩

theorem plainInspect {next : View → Program} (same : ∀ v w, SameTables v w → next v = next w)
    (each : ∀ view, Each (Naming Plain) (next view)) : Each (Naming Plain) (.inspect next) :=
  ⟨same, each⟩

def Keeps (P : Program → Prop) (d : Declaration) : Prop :=
  ∀ arguments caller, Each P (d.handler arguments caller)

theorem plainAliasArgument (argument : Text) (each : Each (Naming Plain) next) :
    Each (Naming Plain) (Builtin.aliasArgument argument next) := by
  unfold Builtin.aliasArgument
  dsimp only
  split
  · split
    · trivial
    · split
      · trivial
      · exact ⟨trivial, each⟩
  · refine plainInspect (fun v w same => by rw [same.aliases]) fun view => ?_
    split
    · exact plainSay each
    · trivial

theorem plainAlias : Keeps (Naming Plain) Builtin.alias := by
  intro arguments caller
  change Each (Naming Plain) (Builtin.runAlias arguments caller)
  unfold Builtin.runAlias
  split
  · refine plainInspect (fun v w same => by rw [same.aliases]) fun view => ?_
    dsimp only
    split
    · trivial
    · exact plainSay trivial
  · exact eachForEach (fun argument _ => plainAliasArgument argument) trivial

theorem plainUnalias : Keeps (Naming Plain) Builtin.unalias := by
  intro arguments caller
  change Each (Naming Plain) (Builtin.runUnalias arguments caller)
  unfold Builtin.runUnalias
  split
  · trivial
  · refine eachForEach (fun argument next each => ?_) trivial
    refine plainInspect (fun v w same => by rw [same.aliases]) fun view => ?_
    split
    · exact ⟨trivial, each⟩
    · trivial

theorem plainEcho : Keeps (Naming Plain) Builtin.echo := by
  intro arguments caller
  change Each (Naming Plain) (Builtin.runEcho arguments caller)
  unfold Builtin.runEcho
  dsimp only
  split
  · exact ⟨fun _ _ => rfl, fun _ => trivial⟩
  · exact eachOrFail (fun _ => trivial) fun color => ⟨fun _ _ => rfl, fun _ => trivial⟩

theorem plainListing (table : Dict Text Text) : Each (Naming Plain) (Builtin.listing table) := by
  unfold Builtin.listing
  split
  · trivial
  · exact plainSay trivial

theorem plainEnv : Keeps (Naming Plain) Builtin.env := fun _ _ =>
  plainInspect (fun v w same => by rw [same.store]) fun _ => plainListing _

theorem plainSet : Keeps (Naming Plain) Builtin.set := fun _ _ =>
  plainInspect (fun v w same => by rw [same.store]) fun _ => plainListing _

theorem plainExport : Keeps (Naming Plain) Builtin.export := by
  intro arguments caller
  change Each (Naming Plain) (Builtin.runExport arguments caller)
  unfold Builtin.runExport
  split
  · exact plainInspect (fun v w same => by rw [same.store]) fun _ => plainListing _
  · refine eachForEach (fun name next each => ?_) trivial
    refine eachOrFail (fun _ => trivial) fun _ => ?_
    refine plainInspect (fun v w same => by rw [same.store]) fun view => ?_
    split
    · exact ⟨trivial, each⟩
    · trivial

theorem plainUnset : Keeps (Naming Plain) Builtin.unset := by
  intro arguments caller
  refine eachForEach (fun name next each => ?_) trivial
  refine eachOrFail (fun _ => trivial) fun _ => ⟨?_, each⟩
  split <;> trivial

theorem plainSwitch (on : Bool) : Each (Naming Plain) (Builtin.switchGodMode on) := by
  unfold Builtin.switchGodMode
  refine ⟨trivial, ?_⟩
  split <;> exact plainSay trivial

theorem plainGodmode : Keeps (Naming Plain) Builtin.godmode := by
  intro arguments caller
  change Each (Naming Plain) (Builtin.runGodmode arguments caller)
  unfold Builtin.runGodmode
  split
  · exact plainInspect (fun v w same => by rw [same.godMode]) fun _ => plainSwitch _
  · split
    · exact plainSwitch true
    · split
      · exact plainSwitch false
      · trivial

theorem plainHelp : Keeps (Naming Plain) Builtin.help := by
  intro arguments caller
  refine plainInspect (fun v w same => by rw [same.commands]) fun view => ?_
  dsimp only
  split
  · exact plainSay trivial
  · split
    · exact plainSay trivial
    · trivial

theorem plainSort : Keeps (Naming Plain) Builtin.sort := by
  intro arguments caller
  change Each (Naming Plain) (Builtin.runSort arguments caller)
  unfold Builtin.runSort
  dsimp only
  generalize Builtin.sortLines _ _ _ _ = lines
  split
  · trivial
  · exact plainSay trivial

def plainly : List Declaration :=
  [Builtin.alias, Builtin.unalias, Builtin.echo, Builtin.env, Builtin.export, Builtin.set,
    Builtin.unset, Builtin.godmode, Builtin.help, Builtin.sort]

theorem keepsMono {d : Declaration} (keeps : Keeps P d) (implies : ∀ p, P p → Q p) : Keeps Q d :=
  fun arguments caller => (keeps arguments caller).mono implies

theorem plainCommands : ∀ d ∈ plainly, Keeps Plain d := by
  have naming : ∀ d ∈ plainly, Keeps (Naming Plain) d := by
    simp only [plainly, List.forall_mem_cons]
    exact ⟨plainAlias, plainUnalias, plainEcho, plainEnv, plainExport, plainSet, plainUnset,
      plainGodmode, plainHelp, plainSort, fun _ mem => nomatch mem⟩
  exact fun d mem => keepsMono (naming d mem) fun _ => namingHere fun _ _ _ => trivial

theorem historyForgets (arguments : Arguments) (caller : Caller) :
    arguments.isOn "clear" = true ∧
        Builtin.history.handler arguments caller = .change .clearHistory .finish ∨
      Each (Naming Slight) (Builtin.history.handler arguments caller) := by
  change _ ∧ Builtin.runHistory arguments caller = _ ∨ Each (Naming Slight) (Builtin.runHistory arguments caller)
  unfold Builtin.runHistory
  split
  · rename_i clears
    exact .inl ⟨clears, rfl⟩
  · exact .inr ⟨trivial, fun _ => ⟨trivial, fun _ => trivial⟩⟩

theorem briefHistory : Keeps Brief Builtin.history := by
  intro arguments caller
  rcases historyForgets arguments caller with ⟨-, forgets⟩ | slight
  · rw [forgets]
    exact ⟨trivial, trivial⟩
  · exact slight.mono fun _ naming => slightBrief (namingHere (fun _ _ _ => trivial) naming)

theorem slightJobs : Keeps (Naming Slight) Builtin.jobs := by
  intro arguments caller
  refine ⟨trivial, fun view => ?_⟩
  dsimp only
  split
  · exact ⟨trivial, trivial, fun _ => trivial⟩
  · split <;> exact ⟨trivial, fun _ => trivial⟩

theorem slightKill : Keeps (Naming Slight) Builtin.kill := by
  intro arguments caller
  refine eachOrFail (fun _ => trivial) fun id => ⟨trivial, fun outcome => ?_⟩
  dsimp only
  split
  · exact ⟨trivial, fun _ => trivial⟩
  · exact ⟨trivial, fun _ => trivial⟩
  · trivial

theorem slightThrow (sides count : Nat) (rolls : List Nat) :
    Each (Naming Slight) (Builtin.throwDice sides count rolls) := by
  induction count generalizing rolls with
  | zero => exact ⟨trivial, fun _ => trivial⟩
  | succ count ih => exact ⟨trivial, fun n => ih _⟩

theorem slightRoll : Keeps (Naming Slight) Builtin.roll := fun _ _ =>
  eachOrFail (fun _ => trivial) fun _ => slightThrow _ _ _

def pausing : List Declaration :=
  [Builtin.confirm, Builtin.fg, Builtin.progress, Builtin.read, Builtin.sleep]

theorem slightCommands {d : Declaration} (mem : d ∈ Builtin.all) :
    d ∈ pausing ∨ d = Builtin.history ∨ d = Builtin.exit ∨ Keeps (Naming Slight) d := by
  have plain {d : Declaration} (keeps : Keeps (Naming Plain) d) : Keeps (Naming Slight) d :=
    keepsMono keeps fun _ => namingMono fun _ => plainSlight
  simp only [Builtin.all, List.mem_cons, List.not_mem_nil, or_false] at mem
  rcases mem with rfl | rfl | rfl | rfl | rfl | rfl | rfl | rfl | rfl | rfl | rfl | rfl | rfl |
    rfl | rfl | rfl | rfl | rfl | rfl | rfl | rfl
  · exact .inr (.inr (.inr (plain plainAlias)))
  · exact .inr (.inr (.inr (plain plainUnalias)))
  · exact .inr (.inr (.inr fun _ _ => ⟨trivial, trivial⟩))
  · exact .inl (by simp [pausing])
  · exact .inr (.inr (.inr (plain plainEcho)))
  · exact .inr (.inr (.inr (plain plainEnv)))
  · exact .inr (.inr (.inr (plain plainExport)))
  · exact .inr (.inr (.inr (plain plainSet)))
  · exact .inr (.inr (.inr (plain plainUnset)))
  · exact .inr (.inr (.inl rfl))
  · exact .inr (.inr (.inr (plain plainGodmode)))
  · exact .inr (.inr (.inr (plain plainHelp)))
  · exact .inr (.inl rfl)
  · exact .inr (.inr (.inr slightJobs))
  · exact .inl (by simp [pausing])
  · exact .inr (.inr (.inr slightKill))
  · exact .inl (by simp [pausing])
  · exact .inl (by simp [pausing])
  · exact .inr (.inr (.inr slightRoll))
  · exact .inl (by simp [pausing])
  · exact .inr (.inr (.inr (plain plainSort)))

theorem briefCommands {d : Declaration} (mem : d ∈ Builtin.all) : d ∈ pausing ∨ Keeps Brief d := by
  rcases slightCommands mem with pauses | rfl | rfl | slight
  · exact .inl pauses
  · exact .inr briefHistory
  · exact .inr fun _ _ => ⟨trivial, trivial⟩
  · exact .inr (keepsMono slight fun _ naming => slightBrief (namingHere (fun _ _ _ => trivial) naming))

/- What becomes of a call: it is over in a crash before it has done anything, or it passes the test. -/
def Called (P : Program → Prop) (p : Program) : Prop := p = .crash ∨ Each P p

def Every (P : Program → Prop) : Prop :=
  ∀ d ∈ Builtin.all, ∀ arguments caller, Called P (d.handler arguments caller)

def Stops : Program → Prop
  | .fail failure => failure = .cancelled
  | .update _ _ next => ∀ there, Stops (next there)
  | _ => False

def Orderly : Program → Prop
  | .sleep _ stopped _ => Stops stopped
  | .crash | .onCancel _ _ | .awaitCancel _ => False
  | _ => True

/- Orderly as the command of a name: only `read` asks for a line and only `confirm` asks a question, what was
typed is not forgotten, and nobody is asked to leave. -/
def Heedful (name : Text) : Program → Prop
  | .readLine _ => name = "read"
  | .confirm _ _ => name = "confirm"
  | .change .clearHistory _ | .change .requestExit _ => False
  | p => Orderly p

section Heedful

variable {name : Text}

theorem heedfulOrderly (heedful : Heedful name p) : Orderly p := by
  unfold Heedful at heedful
  split at heedful <;> trivial

theorem slightHeedful (slight : Slight p) : Heedful name p := by
  cases p with
  | change what next => cases what <;> trivial
  | _ => trivial

theorem orderlyBrief (brief : Brief p) : Orderly p := by
  cases p <;> trivial

theorem heedfulConfirm : Keeps (Naming (Heedful "confirm")) Builtin.confirm := fun _ _ =>
  ⟨rfl, fun _ => ⟨trivial, fun _ => trivial⟩⟩

theorem heedfulFg : Keeps (Naming (Heedful name)) Builtin.fg := fun _ _ =>
  eachOrFail (fun _ => trivial) fun _ =>
    ⟨trivial, fun _ => ⟨trivial, trivial, fun _ => ⟨trivial, fun _ => trivial⟩⟩⟩

theorem requiredName (name : Text) : Builtin.requireName name = .ok () ↔ Variable.isName name = true := by
  unfold Builtin.requireName
  split <;> simp [*]

theorem heedfulRead : Keeps (Naming (Heedful "read")) Builtin.read := by
  intro arguments caller
  change Each _ (Builtin.runRead arguments caller)
  unfold Builtin.runRead
  dsimp only
  cases required : Builtin.requireName (arguments.positionals.headD []) with
  | error failure => trivial
  | ok =>
    have proper := (requiredName _).mp required
    have keep : Each (Naming (Heedful "read"))
        (.readLine fun line => .change (.setVariable (arguments.positionals.headD []) line) .finish) :=
      ⟨rfl, fun _ => ⟨proper, trivial⟩⟩
    unfold Program.orFail
    dsimp only
    split
    · exact ⟨trivial, fun _ => keep⟩
    · exact keep

theorem heedfulSleep (arguments : Arguments) (caller : Caller) :
    Called (Naming (Heedful name)) (Builtin.runSleep arguments caller) := by
  unfold Builtin.runSleep
  dsimp only
  split
  · exact .inr trivial
  · split
    · exact .inl rfl
    · exact .inr ⟨rfl, trivial, trivial⟩

theorem heedfulWalk (group : GroupId) (delay : Duration) (total left : Nat) :
    Each (Naming (Heedful name)) (Builtin.Progress.walk group delay total left) := by
  induction left with
  | zero => exact ⟨trivial, fun _ => trivial⟩
  | succ left ih => exact ⟨fun _ => rfl, ⟨trivial, fun _ => trivial⟩, trivial, fun _ => ih⟩

theorem heedfulProgress (arguments : Arguments) (caller : Caller) :
    Called (Naming (Heedful name)) (Builtin.runProgress arguments caller) := by
  unfold Builtin.runProgress
  dsimp only
  split
  · exact .inr trivial
  · split
    · exact .inr trivial
    · split
      · exact .inl rfl
      · exact .inr ⟨trivial, fun group => heedfulWalk _ _ _ _⟩

end Heedful

theorem calledMono (called : Called P p) (implies : ∀ p, P p → Q p) : Called Q p :=
  called.imp_right fun each => each.mono implies

theorem heedfulCommands {d : Declaration} (mem : d ∈ Builtin.all) :
    d = Builtin.history ∨ d = Builtin.exit ∨
      ∀ arguments caller, Called (Naming (Heedful d.name)) (d.handler arguments caller) := by
  rcases slightCommands mem with pauses | history | exit | slight
  · simp only [pausing, List.mem_cons, List.not_mem_nil, or_false] at pauses
    rcases pauses with rfl | rfl | rfl | rfl | rfl
    · exact .inr (.inr fun arguments caller => .inr (heedfulConfirm arguments caller))
    · exact .inr (.inr fun arguments caller => .inr (heedfulFg arguments caller))
    · exact .inr (.inr heedfulProgress)
    · exact .inr (.inr fun arguments caller => .inr (heedfulRead arguments caller))
    · exact .inr (.inr heedfulSleep)
  · exact .inl history
  · exact .inr (.inl exit)
  · exact .inr (.inr fun arguments caller =>
      .inr ((slight arguments caller).mono fun _ => namingMono fun _ => slightHeedful))

theorem everyOrderly : Every Orderly := by
  intro d mem arguments caller
  rcases heedfulCommands mem with rfl | rfl | heedful
  · exact .inr ((briefHistory arguments caller).mono fun _ => orderlyBrief)
  · exact .inr ⟨trivial, trivial⟩
  · exact calledMono (heedful arguments caller) fun _ naming =>
      heedfulOrderly (namingHere (fun _ _ _ => trivial) naming)

theorem everyNaming : Every (Naming fun _ => True) := by
  intro d mem arguments caller
  rcases heedfulCommands mem with rfl | rfl | heedful
  · rcases historyForgets arguments caller with ⟨-, forgets⟩ | slight
    · rw [forgets]
      exact .inr ⟨trivial, trivial⟩
    · exact .inr (slight.mono fun _ => namingMono fun _ _ => trivial)
  · exact .inr ⟨trivial, trivial⟩
  · exact calledMono (heedful arguments caller) fun _ => namingMono fun _ _ => trivial

end ConsoleShell.Actions
