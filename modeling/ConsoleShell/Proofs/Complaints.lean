import ConsoleShell.Proofs.Actions
import ConsoleShell.Proofs.Arguments
import ConsoleShell.Proofs.Assignments
import ConsoleShell.Proofs.CalledLines
import ConsoleShell.Proofs.Citations

/-! What commands complain about. A command that does not understand one of its words says so before it pauses,
and all that it may have done till then is to print regular output and to set a table. It cites the
word as it was typed, having read it back, but for the number of a job, which it cites as it was handed over. -/
namespace ConsoleShell.Complaints
open Actions Citations Markup

inductive Faults (word : Text) : Failure → Prop where
  | number : Faults word (.job (.invalidId word))
  | typed {f} (reads : ∀ q ∈ citedFailure f, Quoted (unescape word) q) : Faults word f

def Mute : Program → Prop
  | .fail failure => citedFailure failure = []
  | .kill _ _ => False
  | _ => True

inductive Complains (words : List Text) : Program → Prop where
  | fails {f word} (mem : word ∈ words) (faults : Faults word f) : Complains words (.fail f)
  | silent {p} (each : Each Mute p) : Complains words p
  | prints {text next} (later : ∀ group, Complains words (next group)) : Complains words (.print .output text next)
  | inspects {next} (later : ∀ view, Complains words (next view)) : Complains words (.inspect next)
  | changes {what next} (later : Complains words next) : Complains words (.change what next)
  | kills {id next} (killed : ∀ outcome, Each Mute (next (.ok outcome)))
      (missing : Each Mute (next (.error (.notFound id)))) : Complains words (.kill id next)

variable {words : List Text} {word : Text}

theorem complainsFails {f : Failure} (silent : citedFailure f = []) : Complains words (.fail f) := .silent silent

theorem complainsOrFail {α : Type} {result : Except Failure α} {next : α → Program}
    (bad : ∀ f, result = .error f → Complains words (.fail f))
    (good : ∀ a, result = .ok a → Complains words (next a)) : Complains words (.orFail result next) := by
  cases result with
  | error f => exact bad f rfl
  | ok a => exact good a rfl

theorem complainsForEach {items : List Text} {body : Text → Program → Program} {last : Program}
    (each : ∀ item ∈ items, ∀ next, Complains words next → Complains words (body item next))
    (atEnd : Complains words last) : Complains words (.forEach items body last) := by
  unfold Program.forEach
  induction items with
  | nil => exact atEnd
  | cons item rest ih =>
    obtain ⟨first, later⟩ := List.forall_mem_cons.mp each
    exact first _ (ih later)

theorem unescapeFree (free : '&' ∉ word) : unescape word = word := by
  have pass {c : Char} (listed : c ∈ special) : Text.replaceAll (entity c) [c] word = word := by
    have passed : Text.replaceFrom ('&' :: (entity c).tail) [c] 0 (word ++ []) = _ := replacePass free []
    rw [← entityHead c listed, List.append_nil] at passed
    exact passed.trans (List.append_nil word)
  show Text.replaceAll (entity '&') ['&'] (Text.replaceAll (entity '\'') ['\'']
    (Text.replaceAll (entity '"') ['"'] (Text.replaceAll (entity '>') ['>']
      (Text.replaceAll (entity '<') ['<'] word)))) = word
  rw [pass (by decide), pass (by decide), pass (by decide), pass (by decide), pass (by decide)]

theorem faultsWhole {f : Failure} (cites : citedFailure f = [unescape word]) : Faults word f := by
  refine .typed fun q mem => ?_
  rw [cites] at mem
  cases List.mem_singleton.mp mem
  exact .whole

theorem complainsRequired (mem : word ∈ words) {next : Unit → Program}
    (good : Variable.isName word = true → Complains words (next ())) :
    Complains words (.orFail (Builtin.requireName word) next) := by
  refine complainsOrFail (fun f failed => ?_) fun _ passed => good ((requiredName word).mp passed)
  unfold Builtin.requireName at failed
  split at failed
  · cases failed
  · cases failed
    exact .fails mem (faultsWhole rfl)

theorem nameFree (proper : Variable.isName word = true) : '&' ∉ word := fun mem =>
  absurd (Assignments.nameContinues proper '&' mem) (by decide)

variable (arguments : Arguments) (caller : Caller)

theorem complainsAlias : Complains arguments.positionals (Builtin.runAlias arguments caller) := by
  unfold Builtin.runAlias
  split
  · refine .inspects fun view => ?_
    dsimp only
    split
    · exact .silent trivial
    · exact .prints fun _ => .silent trivial
  · refine complainsForEach (fun argument mem next later => ?_) (.silent trivial)
    unfold Builtin.aliasArgument
    dsimp only
    split
    · rename_i name target cut
      have parts := (FlagGrammar.cutSome cut).2
      have named {f : Failure} (cites : citedFailure f = [name]) : Faults argument f := by
        refine .typed fun q listed => ?_
        rw [cites] at listed
        cases List.mem_singleton.mp listed
        exact .before parts
      split
      · exact .fails mem (named rfl)
      · split
        · exact .fails mem (named rfl)
        · exact .changes later
    · refine .inspects fun view => ?_
      split
      · exact .prints fun _ => later
      · exact .fails mem (faultsWhole rfl)

theorem complainsUnalias : Complains arguments.positionals (Builtin.runUnalias arguments caller) := by
  unfold Builtin.runUnalias
  split
  · exact complainsFails rfl
  · refine complainsForEach (fun argument mem next later => .inspects fun view => ?_) (.silent trivial)
    split
    · exact .changes later
    · exact .fails mem (faultsWhole rfl)

theorem muteListing (table : Dict Text Text) : Each Mute (Builtin.listing table) := by
  unfold Builtin.listing
  split
  · trivial
  · exact ⟨trivial, fun _ => trivial⟩

theorem complainsExport : Complains arguments.positionals (Builtin.runExport arguments caller) := by
  unfold Builtin.runExport
  split
  · exact .silent ⟨trivial, fun _ => muteListing _⟩
  · refine complainsForEach (fun name mem next later => complainsRequired mem fun proper => .inspects fun view => ?_)
      (.silent trivial)
    split
    · exact .changes later
    · refine .fails mem (faultsWhole ?_)
      rw [unescapeFree (nameFree proper)]
      rfl

theorem complainsUnset : Complains arguments.positionals (Builtin.runUnset arguments caller) :=
  complainsForEach (fun _ mem _ later => complainsRequired mem fun _ => .changes later) (.silent trivial)

theorem complainsHelp : Complains arguments.positionals (Builtin.runHelp arguments caller) := by
  refine .inspects fun view => ?_
  dsimp only
  split
  · exact .silent ⟨trivial, fun _ => trivial⟩
  · rename_i typed first
    split
    · exact .silent ⟨trivial, fun _ => trivial⟩
    · exact .fails (List.mem_of_head? first) (faultsWhole rfl)

theorem muteSwitch (on : Bool) : Each Mute (Builtin.switchGodMode on) := by
  unfold Builtin.switchGodMode
  refine ⟨trivial, ?_⟩
  split <;> exact ⟨trivial, fun _ => trivial⟩

theorem complainsGodmode : Complains arguments.positionals (Builtin.runGodmode arguments caller) := by
  unfold Builtin.runGodmode
  split
  · exact .silent ⟨trivial, fun _ => muteSwitch _⟩
  · rename_i state first
    split
    · exact .silent (muteSwitch true)
    · split
      · exact .silent (muteSwitch false)
      · exact .fails (List.mem_of_head? first) (faultsWhole rfl)

theorem muteThrow (sides count : Nat) (rolls : List Nat) : Each Mute (Builtin.throwDice sides count rolls) := by
  induction count generalizing rolls with
  | zero => exact ⟨trivial, fun _ => trivial⟩
  | succ count ih => exact ⟨trivial, fun n => ih _⟩

/- Dice that are no dice are complained about, and a wrong number of them or of their sides is just wrong. -/
theorem diceFails {typed : Text} {f : Failure} (failed : Builtin.readDice typed = .error f) :
    f = .invalidDice (unescape typed) ∨ citedFailure f = [] := by
  unfold Builtin.readDice at failed
  dsimp only at failed
  split at failed
  · split at failed
    · split at failed
      · split at failed
        · cases failed
          exact .inr rfl
        · split at failed
          · cases failed
            exact .inr rfl
          · cases failed
      · cases failed
        exact .inl rfl
    · cases failed
      exact .inl rfl
  · cases failed
    exact .inl rfl

theorem complainsRoll : Complains arguments.positionals (Builtin.runRoll arguments caller) := by
  refine complainsOrFail (fun f failed => ?_) fun _ _ => .silent (muteThrow _ _ _)
  cases given : arguments.positionals with
  | nil =>
    have standard : (Builtin.readDice "1d6").isOk = true := by decide
    rw [given] at failed
    change Builtin.readDice "1d6" = _ at failed
    rw [failed] at standard
    cases standard
  | cons typed rest =>
    rw [given] at failed
    rcases diceFails failed with rfl | silent
    · exact .fails List.mem_cons_self (faultsWhole rfl)
    · exact complainsFails silent

theorem firstGiven (supplied : arguments.positionals ≠ []) :
    arguments.positionals.headD [] ∈ arguments.positionals := by
  obtain ⟨first, rest, whole⟩ := List.exists_cons_of_ne_nil supplied
  rw [whole]
  exact List.mem_cons_self

section Supplied

variable (supplied : arguments.positionals ≠ [])

include supplied

theorem complainsSleep : Complains arguments.positionals (Builtin.runSleep arguments caller) := by
  unfold Builtin.runSleep
  dsimp only
  split
  · exact .fails (firstGiven arguments supplied) (faultsWhole rfl)
  · split
    · exact .silent trivial
    · exact .silent ⟨trivial, rfl, trivial⟩

theorem complainsRead : Complains arguments.positionals (Builtin.runRead arguments caller) := by
  refine complainsRequired (firstGiven arguments supplied) fun _ => ?_
  split
  · exact .silent ⟨trivial, fun _ => ⟨trivial, fun _ => ⟨trivial, trivial⟩⟩⟩
  · exact .silent ⟨trivial, fun _ => ⟨trivial, trivial⟩⟩

theorem complainsNamed {next : JobId → Program} (good : ∀ id, Complains arguments.positionals (next id)) :
    Complains arguments.positionals (.orFail (Builtin.namedJob arguments) next) := by
  refine complainsOrFail (fun f failed => ?_) fun id _ => good id
  unfold Builtin.namedJob JobId.read at failed
  dsimp only at failed
  split at failed
  · cases failed
  · cases failed
    exact .fails (firstGiven arguments supplied) .number

theorem complainsKill : Complains arguments.positionals (Builtin.runKill arguments caller) := by
  refine complainsNamed arguments supplied fun id => .kills (fun outcome => ?_) rfl
  cases outcome <;> exact ⟨trivial, fun _ => trivial⟩

theorem complainsFg : Complains arguments.positionals (Builtin.runFg arguments caller) :=
  complainsNamed arguments supplied fun _ =>
    .silent ⟨trivial, fun _ => ⟨trivial, trivial, fun _ => ⟨trivial, fun _ => trivial⟩⟩⟩

end Supplied

theorem complainsEcho (chosen : ∀ name, arguments.text? "color" = some name → (Color.ofName? name).isSome = true) :
    Complains arguments.positionals (Builtin.runEcho arguments caller) := by
  unfold Builtin.runEcho
  dsimp only
  split
  · exact .silent ⟨trivial, fun _ => trivial⟩
  · rename_i name given
    obtain ⟨color, known⟩ := Option.isSome_iff_exists.mp (chosen name given)
    unfold Builtin.colorByName
    rw [known]
    exact .silent ⟨trivial, fun _ => trivial⟩

theorem muteWalk (group : GroupId) (delay : Duration) (total left : Nat) :
    Each Mute (Builtin.Progress.walk group delay total left) := by
  induction left with
  | zero => exact ⟨trivial, fun _ => trivial⟩
  | succ left ih => exact ⟨trivial, ⟨trivial, fun _ => rfl⟩, trivial, fun _ => ih⟩

theorem muteProgress : Each Mute (Builtin.runProgress arguments caller) := by
  unfold Builtin.runProgress
  dsimp only
  split
  · exact rfl
  · split
    · exact rfl
    · split
      · trivial
      · exact ⟨trivial, fun _ => muteWalk _ _ _ _⟩

theorem muteHistory : Each Mute (Builtin.runHistory arguments caller) := by
  unfold Builtin.runHistory
  split
  · exact ⟨trivial, trivial⟩
  · exact ⟨trivial, fun _ => ⟨trivial, fun _ => trivial⟩⟩

theorem muteJobs : Each Mute (Builtin.runJobs arguments caller) := by
  refine ⟨trivial, fun view => ?_⟩
  dsimp only
  split
  · exact ⟨trivial, trivial, fun _ => trivial⟩
  · split <;> exact ⟨trivial, fun _ => trivial⟩

theorem muteSort : Each Mute (Builtin.runSort arguments caller) := by
  unfold Builtin.runSort
  dsimp only
  generalize Builtin.sortLines _ _ _ _ = lines
  split
  · trivial
  · exact ⟨trivial, fun _ => trivial⟩

structure Fits (d : Declaration) (arguments : Arguments) : Prop where
  supplied : (d.positionals.head?.any fun p => p.required) = true → arguments.positionals ≠ []
  chosen : d.name = "echo" → ∀ name, arguments.text? "color" = some name → (Color.ofName? name).isSome = true

theorem complainsCommand {d : Declaration} (mem : d ∈ Builtin.all) (fits : Fits d arguments) :
    Complains arguments.positionals (d.handler arguments caller) := by
  simp only [Builtin.all, List.mem_cons, List.not_mem_nil, or_false] at mem
  rcases mem with rfl | rfl | rfl | rfl | rfl | rfl | rfl | rfl | rfl | rfl | rfl | rfl | rfl |
    rfl | rfl | rfl | rfl | rfl | rfl | rfl | rfl
  · exact complainsAlias arguments caller
  · exact complainsUnalias arguments caller
  · exact .silent ⟨trivial, trivial⟩
  · exact .silent ⟨trivial, fun _ => ⟨trivial, fun _ => trivial⟩⟩
  · exact complainsEcho arguments caller (fits.chosen rfl)
  · exact .silent ⟨trivial, fun _ => muteListing _⟩
  · exact complainsExport arguments caller
  · exact .silent ⟨trivial, fun _ => muteListing _⟩
  · exact complainsUnset arguments caller
  · exact .silent ⟨trivial, trivial⟩
  · exact complainsGodmode arguments caller
  · exact complainsHelp arguments caller
  · exact .silent (muteHistory arguments caller)
  · exact .silent (muteJobs arguments caller)
  · exact complainsFg arguments caller (fits.supplied rfl)
  · exact complainsKill arguments caller (fits.supplied rfl)
  · exact .silent (muteProgress arguments caller)
  · exact complainsRead arguments caller (fits.supplied rfl)
  · exact complainsRoll arguments caller
  · exact complainsSleep arguments caller (fits.supplied rfl)
  · exact .silent (muteSort arguments caller)

section Parsed

variable {d : Declaration} {c : Command Handler} {typed : List Text} {a : Arguments}

theorem readsWithin {schema : Schema} {taken : FlagGrammar.Settings} {plain : List Text}
    (reads : FlagGrammar.Reads schema typed taken plain) : ∀ word ∈ plain, word ∈ typed := by
  induction reads with
  | done => exact fun _ mem => nomatch mem
  | dashes words => exact fun _ mem => List.mem_cons_of_mem _ mem
  | sets sets next ih => exact fun word mem => List.mem_cons_of_mem _ (ih word mem)
  | value opens fits cast next ih =>
    exact fun word mem => List.mem_cons_of_mem _ (List.mem_cons_of_mem _ (ih word mem))
  | plain isPlain next ih =>
    intro word mem
    rcases List.mem_cons.mp mem with rfl | mem
    · exact List.mem_cons_self
    · exact List.mem_cons_of_mem _ (ih word mem)

theorem colorChosen {defs : List Flag} (flags : Builtin.echo.flags = some defs) (read : FlagParsing.WellRead defs a)
    {name : Text} (given : a.text? "color" = some name) : (Color.ofName? name).isSome = true := by
  have known : ∀ typed ∈ Color.all.map Color.name, (Color.ofName? (escape typed)).isSome = true := by decide
  have value : a.value? "color" = some (.text name) := by
    unfold Arguments.text? at given
    split at given
    · rename_i found
      rw [found, Option.some.inj given]
    · cases given
  have mem : ((Flag.string "color").withAlias "c" |>.withChoices (Color.all.map Color.name)
      |>.describedAs "Print in one of the eight ANSI colors.") ∈ defs := by
    cases flags
    exact List.mem_cons_self
  by_cases present : ("color" : Text) ∈ a.given
  · obtain ⟨stored, found, admits⟩ := read.present _ mem present
    cases value.symm.trans found
    obtain ⟨-, typed, rfl, allowed⟩ := admits
    exact known typed (allowed _ rfl)
  · have unset : a.value? "color" = none := read.absent _ mem present
    rw [unset] at value
    cases value

theorem parsedFits (mem : d ∈ Builtin.all) (built : Command.ofDeclaration d = .ok c)
    (parsed : c.parse typed = .ok a) : Fits d a ∧ ∀ word ∈ a.positionals, ∃ v ∈ typed, word = escape v := by
  unfold Command.ofDeclaration at built
  split at built
  · rename_i raw
    cases built
    cases parsed
    have bare : ∀ d ∈ Builtin.all, d.flags = none → d.positionals = [] := by decide
    refine ⟨⟨fun required => ?_, fun _ name given => nomatch given⟩, fun word listed => ?_⟩
    · rw [bare d mem raw] at required
      cases required
    · obtain ⟨v, inside, rfl⟩ := List.mem_map.mp listed
      exact ⟨v, inside, rfl⟩
  · rename_i defs flags
    obtain ⟨schema, made, same⟩ := bindOk.mp built
    cases same
    have fits := Schema.builtFits made
    have ordinary : ∀ d ∈ Builtin.all, ∀ f ∈ d.flags.getD [], f.exclusive = false := by decide
    obtain ⟨ran, obeys⟩ := (FlagParsing.accepted fits).mp parsed
    obtain ⟨taken, plain, reads, rfl⟩ := (FlagGrammar.scanned (FlagParsing.startReady schema)).mp ran
    refine ⟨⟨fun required => ?_, fun echo name given => ?_⟩, fun word listed => ?_⟩
    · have complete := obeys.complete.resolve_left fun ⟨f, inside, exclusive, _⟩ => by
        have never := ordinary d mem f (flags ▸ inside)
        rw [never] at exclusive
        cases exclusive
      intro empty
      cases first : d.positionals.head? with
      | none =>
        rw [first] at required
        cases required
      | some p =>
        rw [first] at required
        have enough := complete 0 p (List.head?_eq_getElem? ▸ first) required
        rw [empty] at enough
        cases enough
    · have own : d = Builtin.echo := Crashes.declaredOnce mem (by simp [Builtin.all]) echo
      subst own
      exact colorChosen flags (FlagParsing.outcomeWellRead fits (FlagParsing.readsProper reads) plain) given
    · obtain ⟨v, inside, rfl⟩ := List.mem_map.mp (listed : word ∈ [] ++ plain.map escape)
      exact ⟨v, readsWithin reads v inside, rfl⟩

end Parsed

end ConsoleShell.Complaints
