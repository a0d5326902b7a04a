import ConsoleShell.Proofs.FlagGrammar
import ConsoleShell.Proofs.FlagOutcome
import ConsoleShell.Proofs.JobsAgree
import ConsoleShell.Proofs.QuotedWords
import ConsoleShell.Proofs.ShownOrder

/-! The list of aliases, and what it is when it is read as a line again. The two commands that deal with
aliases keep their names free of blanks, equals signs and dollar signs, and the table in order. A target is
quoted when it is listed, so it comes back whatever it is. A name is not quoted, though backslashes and quotes
may stand in it; what is read in its place is shorter then, so a listed line comes back as its entry just
where the name has none of these. -/
namespace ConsoleShell.AliasListing
open Builtin Token WordGrammar CalledLines Markup QuotedWords
open Actions (Each)
open FlagGrammar (cutFound)
open Expansion (noBackslash)
open QuotedEcho (OneLine)
open Shell (Reachable)

def Printable (v : Text) : Prop := ∀ c ∈ [Char.ofNat 0, Render.escapeCharacter, '\n', '\r'], c ∉ v

instance (v : Text) : Decidable (Printable v) := List.decidableBAll (fun c => c ∉ v) _

def listed (entry : Text × Text) : Text := "alias " ++ entry.1 ++ "=" ++ Quoting.quote entry.2

def definition (entry : Text × Text) : List Text := ["alias", entry.1 ++ '=' :: entry.2]

section Lines

variable {name target : Text} {quote : Option Char}

theorem scanEquals (proper : quote.all isQuote = true) (word : Option Text) (rest : Text) :
    scan word quote ('=' :: rest) = scan (some (word.getD [] ++ ['='])) quote rest := by
  have other : quote ≠ some '=' := by
    rintro rfl
    cases proper
  simp [scan, extend, other, isQuote, isBlank]

/- What is read of a name are some of its characters, and outside quotes all of them only if each stands for
itself. -/
theorem scanNamed (proper : quote.all isQuote = true) (visible : ∀ c ∈ name, isBlank c = false)
    (word : Option Text) (rest : Text) : ∃ read still, List.Sublist read name ∧
      (quote = none → read = name → ∀ c ∈ name, Ordinary c) ∧
      scan word quote (name ++ '=' :: rest) = scan (some (word.getD [] ++ read ++ ['='])) still rest := by
  fun_induction Background.leavesOpen quote name generalizing word with
  | case1 quote =>
    refine ⟨[], quote, .slnil, fun _ _ => List.forall_mem_nil _, ?_⟩
    rw [List.append_nil, List.nil_append]
    exact scanEquals proper word rest
  | case2 quote =>
    refine ⟨[], quote, List.nil_sublist _, fun _ same => absurd same (List.cons_ne_nil _ _).symm, ?_⟩
    simp [scan, extend]
  | case3 quote c later ih =>
    have behind := (List.forall_mem_cons.mp (List.forall_mem_cons.mp visible).2).2
    obtain ⟨read, still, sublist, -, same⟩ := ih proper behind (extend word c)
    refine ⟨c :: read, still, (sublist.cons_cons c).cons _, fun _ whole => ?_, ?_⟩
    · have short := sublist.length_le
      have long := congrArg List.length whole
      simp at long
      omega
    · simpa [scan, extend] using same
  | case4 c later last pair ih =>
    obtain ⟨read, still, sublist, -, same⟩ := ih rfl (List.forall_mem_cons.mp visible).2 word
    refine ⟨read, still, sublist.cons _, fun closed => absurd closed (Option.some_ne_none c), ?_⟩
    simpa [scan, noBackslash last pair] using same
  | case5 quote c later last pair other opens ih =>
    obtain ⟨outside, isOpen⟩ := Bool.and_eq_true_iff.mp opens
    obtain rfl : quote = none := by simpa using outside
    obtain ⟨read, still, sublist, -, same⟩ := ih isOpen (List.forall_mem_cons.mp visible).2 (some (word.getD []))
    refine ⟨read, still, sublist.cons _, fun _ whole => ?_, ?_⟩
    · have short := sublist.length_le
      rw [whole, List.length_cons] at short
      omega
    · simpa [scan, noBackslash last pair, isOpen] using same
  | case6 quote c later last pair other inside ih =>
    have plain := noBackslash last pair
    obtain ⟨seen, behind⟩ := List.forall_mem_cons.mp visible
    obtain ⟨read, still, sublist, ordinary, same⟩ := ih proper behind (extend word c)
    refine ⟨c :: read, still, sublist.cons_cons c, fun closed whole => ?_, ?_⟩
    · subst closed
      have noQuote : isQuote c = false := by simpa using inside
      exact List.forall_mem_cons.mpr ⟨⟨plain, noQuote⟩, ordinary rfl (List.cons.inj whole).2⟩
    · have here : scan word quote (c :: later ++ '=' :: rest) =
          scan (extend word c) quote (later ++ '=' :: rest) := by
        simp [scan, plain, other, inside, seen]
      rw [here, same]
      simp [extend]

theorem underBegins {word rest first : Text} {others : List Text} (under : Under word rest (first :: others)) :
    word <+: first := by
  cases under with
  | rest parts tail => exact List.prefix_append _ _

theorem scanBegins {word rest first : Text} {others : List Text}
    (scanned : scan (some word) quote rest = .ok (first :: others)) : word <+: first := by
  have reads := scanReads scanned
  cases quote with
  | none => exact underBegins reads
  | some q =>
    obtain ⟨written, meant, behind, rfl, span, under⟩ := reads
    exact (List.prefix_append word meant).trans (underBegins under)

theorem nameRead (named : isAliasName name = true) : (∀ c ∈ name, isBlank c = false) ∧ '=' ∉ name := by
  simp only [isAliasName, Bool.and_eq_true, List.all_eq_true, Bool.not_eq_true', decide_eq_true_eq] at named
  exact ⟨fun c mem => (named.2 c mem).1.1, fun mem => (named.2 _ mem).1.2 rfl⟩

/- The word that a listed line has behind its first one comes back just where the name is ordinary. -/
theorem splitsDefinition (named : isAliasName name = true) (free : Char.ofNat 0 ∉ target) :
    tokenize (name ++ '=' :: Quoting.quote target) = .ok [name ++ '=' :: target] ↔ ∀ c ∈ name, Ordinary c := by
  obtain ⟨visible, noEquals⟩ := nameRead named
  constructor
  · intro splits
    have proper : (none : Option Char).all isQuote = true := rfl
    obtain ⟨read, still, sublist, ordinary, same⟩ := scanNamed proper visible none (Quoting.quote target)
    have scanned : scan none none (name ++ '=' :: Quoting.quote target) = .ok [name ++ '=' :: target] := splits
    rw [same] at scanned
    obtain ⟨behind, whole⟩ := scanBegins scanned
    -- Up to the first equals sign the word is the name, and it is what was read in its place.
    have cut := congrArg (Text.cut? '=') whole
    rw [Option.getD_none, List.nil_append, List.append_assoc, List.singleton_append,
      cutFound (fun mem => noEquals (sublist.subset mem)), cutFound noEquals] at cut
    exact ordinary rfl (Prod.mk.inj (Option.some.inj cut)).1
  · intro ordinary
    have equals : Ordinary '=' ∧ isBlank '=' = false := by decide
    have plain : ∀ c ∈ name ++ ['='], Ordinary c ∧ isBlank c = false := by
      intro c mem
      rcases List.mem_append.mp mem with inside | last
      · exact ⟨ordinary c inside, visible c inside⟩
      · exact List.mem_singleton.mp last ▸ equals
    have parts := partsAppend (partsPlain plain) (shownParts (shownQuoted target free)).1
    rw [List.append_assoc, List.append_assoc, List.singleton_append, List.singleton_append] at parts
    exact splitsWord (partsWord parts (by simp))

theorem splitsAlias (rest : Text) : tokenize ("alias " ++ rest) = (tokenize rest).map ("alias".toList :: ·) := by
  have plain : ∀ c ∈ ['a', 'l', 'i', 'a', 's'], Ordinary c ∧ isBlank c = false := by
    simp [Ordinary, isQuote, isBlank]
  have word : Word "alias" "alias" := partsWord (partsPlain plain) (by decide)
  have read := scanWord word (' ' :: rest)
  rw [scanBlank rfl] at read
  exact read

theorem readsBack {entry : Text × Text} (named : isAliasName entry.1 = true) (free : Char.ofNat 0 ∉ entry.2) :
    tokenize (listed entry) = .ok (definition entry) ↔ ∀ c ∈ entry.1, Ordinary c := by
  have line : listed entry = "alias " ++ (entry.1 ++ '=' :: Quoting.quote entry.2) := by
    unfold listed
    rw [List.append_assoc, List.append_assoc]
    rfl
  rw [line, splitsAlias, ← splitsDefinition named free]
  cases tokenize (entry.1 ++ '=' :: Quoting.quote entry.2) with
  | error e => exact iff_of_false (nomatch ·) (nomatch ·)
  | ok words => simp only [Except.map, Except.ok.injEq, definition, List.cons.injEq, true_and]

theorem listedOneLine {entry : Text × Text} (name : Printable entry.1) (target : Printable entry.2) :
    OneLine (listed entry) := by
  have foreign : ∀ c ∈ [Render.escapeCharacter, '\n', '\r'],
      c ∉ "alias ".toList ∧ c ∉ "=".toList ∧ c ∉ marks := by
    simp only [List.forall_mem_cons]
    exact ⟨by decide, by decide, by decide, List.forall_mem_nil _⟩
  have absent : ∀ c ∈ [Render.escapeCharacter, '\n', '\r'], c ∉ listed entry := by
    intro c special mem
    obtain ⟨noFirst, noEquals, noMark⟩ := foreign c special
    have inside : c ∉ entry.1 ∧ c ∉ entry.2 :=
      ⟨name c (List.mem_cons_of_mem _ special), target c (List.mem_cons_of_mem _ special)⟩
    have quoted : c ∉ Quoting.quote entry.2 := fun there =>
      (shownMember (shownQuoted _ (target _ List.mem_cons_self)) there).elim inside.2 noMark
    unfold listed at mem
    rw [List.mem_append, List.mem_append, List.mem_append] at mem
    rcases mem with ((first | named) | equals) | there
    · exact noFirst first
    · exact inside.1 named
    · exact noEquals equals
    · exact quoted there
  have carriage : '\r' ∉ listed entry := absent _ (by decide)
  exact ⟨absent _ (by decide), absent _ (by decide), fun ends => carriage (List.mem_of_getLast? ends)⟩

end Lines

/- What can be done by the two commands: they speak and look, and set an alias under a proper name only. -/
def Tabling : Program → Prop
  | .finish | .fail _ | .print _ _ _ | .inspect _ | .change (.removeAlias _) _ => True
  | .change (.setAlias name _) _ => isAliasName name = true
  | _ => False

def tabling : List Declaration := [Builtin.alias, unalias]

inductive Made : Dict Text Text → Prop where
  | none : Made .empty
  | called {s : Shell} {d : Declaration} (before : Made s.registry.aliases) (either : d ∈ tabling)
      (c : Invocation) (left : Nat) (arguments : Arguments) (caller : Caller) :
      Made (Shell.perform c left (d.handler arguments caller) s).2.registry.aliases

structure Proper (table : Dict Text Text) : Prop where
  sorted : table.Sorted
  names : ∀ entry ∈ table.entries, isAliasName entry.1 = true

section Tables

variable {s : Shell} {table : Dict Text Text} {p next : Program}

theorem tablingArgument (argument : Text) (each : Each Tabling next) :
    Each Tabling (aliasArgument argument next) := by
  unfold aliasArgument
  dsimp only
  split
  · split
    · trivial
    · rename_i name target cut refused
      have named : isAliasName name = true := by simpa using refused
      split
      · trivial
      · exact ⟨named, each⟩
  · refine ⟨trivial, fun view => ?_⟩
    dsimp only
    split
    · exact ⟨trivial, fun _ => each⟩
    · trivial

theorem tablingAlias : Actions.Keeps Tabling Builtin.alias := by
  intro arguments caller
  change Each Tabling (runAlias arguments caller)
  unfold runAlias
  split
  · refine ⟨trivial, fun view => ?_⟩
    dsimp only
    split
    · trivial
    · exact ⟨trivial, fun _ => trivial⟩
  · exact Actions.eachForEach (fun argument _ => tablingArgument argument) trivial

theorem tablingUnalias : Actions.Keeps Tabling unalias := by
  intro arguments caller
  change Each Tabling (runUnalias arguments caller)
  unfold runUnalias
  split
  · trivial
  · refine Actions.eachForEach (fun argument next each => ⟨trivial, fun view => ?_⟩) trivial
    dsimp only
    split
    · exact ⟨trivial, each⟩
    · trivial

theorem properSet (proper : Proper table) {name : Text} (named : isAliasName name = true) (target : Text) :
    Proper (table.insert name target) := by
  refine ⟨Dict.sortedInsert FlagGrammar.textTrans FlagGrammar.textTotal proper.sorted name target, ?_⟩
  intro entry mem
  rcases Dict.insertedEntry mem with rfl | before
  · exact named
  · exact proper.names entry before

theorem properRemove (proper : Proper table) (name : Text) : Proper (table.erase name) :=
  ⟨Dict.sortedErase proper.sorted name, fun entry mem => proper.names entry (List.mem_filter.mp mem).1⟩

theorem printRegistry (s : Shell) (c : Invocation) (kind : OutputKind) (text : Text) :
    (s.print c kind text).2.registry = s.registry := by
  unfold Shell.print Shell.printAt
  cases c.origin.job? <;> rfl

theorem properRun {c : Invocation} (each : Each Tabling p) (proper : Proper s.registry.aliases) (left : Nat) :
    Proper (Shell.perform c left p s).2.registry.aliases := by
  induction p generalizing s with
  | finish | fail => exact proper
  | print kind text next ih =>
    have stays : Proper (s.print c kind text).2.registry.aliases := by
      rw [printRegistry]
      exact proper
    exact ih _ (each.2 _) stays
  | inspect next ih => exact ih _ (each.2 _) proper
  | change what next ih =>
    refine ih each.2 ?_
    cases what with
    | setAlias name target => exact properSet proper each.1 target
    | removeAlias name => exact properRemove proper name
    | _ => exact each.1.elim
  | crash => exact each.elim
  | _ => exact each.1.elim

theorem madeProper (made : Made table) : Proper table := by
  induction made with
  | none => exact ⟨List.Pairwise.nil, List.forall_mem_nil _⟩
  | @called s d before either c left arguments caller ih =>
    have keeps : ∀ d ∈ tabling, Actions.Keeps Tabling d := by
      simp only [tabling, List.forall_mem_cons]
      exact ⟨tablingAlias, tablingUnalias, List.forall_mem_nil _⟩
    exact properRun (keeps d either arguments caller) ih left

end Tables

section Turns

variable {s : Shell} {task : TaskId} {session : SessionId} {typed : Text} {piped : Option (List Text)} {call : Call}

theorem openedRegistry (reachable : Reachable s) (task : TaskId) (session : SessionId) (typed : Text) :
    (s.opened task session typed).2.registry = s.registry := by
  obtain ⟨ready, same⟩ := openedQuietly reachable task session typed
  rw [same]
  rfl

theorem leaveRegistry (task : TaskId) {c : Invocation} {name : Text} (command : c.command = some name)
    (run : Halt × Shell) : (Shell.leave task c run).registry = run.2.registry := by
  obtain ⟨halt, t⟩ := run
  unfold Shell.leave
  rw [command]
  cases halt with
  | waiting wait | yielded rest => rfl
  | ended ending => exact (JobsAgree.concludeTwin t task c.session c.origin (ending.outcome name)).registry

theorem executedRegistry (s : Shell) (session : SessionId) (line : Text) (piped : Option (List Text)) :
    (s.execute session line piped).2.registry = s.registry := rfl

theorem madeTurn (reachable : Reachable s) (calls : Calls s task session typed piped call) {d : Declaration}
    (either : d ∈ tabling) (named : call.command.name = d.name)
    (made : Made s.registry.aliases) (tie : Shell.Tie) : Made (s.resume tie task).registry.aliases := by
  have all : d ∈ Builtin.all := List.mem_append_left _ either
  rw [calls.turn tie, leaveRegistry task rfl, calls.handler reachable all named]
  rw [← openedRegistry reachable task session typed] at made
  exact .called made either _ _ _ _

end Turns

def unaliased : Shell := (Shell.started { Config.standard with aliases := .empty }).openSession.2

theorem unaliasedReachable : Reachable unaliased := (Shell.reachableStarted _).step (.openSession _)

def handed (line : Text) : Shell := (unaliased.execute ⟨0⟩ line none).2
def turned (line : Text) : Shell := (handed line).resume .event ⟨0⟩

theorem handedReachable (line : Text) : Reachable (handed line) := unaliasedReachable.step (.execute _ _ _ _)

theorem turnedReachable (line : Text) : Reachable (turned line) := (handedReachable line).step (.resume _ _ _)

theorem turnedMade {line : Text} (plain : (handed line).assign? ⟨0⟩ (Text.trim line) = none)
    (foreground : Background.command? (Text.trim line) = none)
    (seen : (((handed line).opened ⟨0⟩ ⟨0⟩ line).2.readCall ⟨0⟩ (Text.trim line)).map
      (Option.map fun call => call.command.name) = .ok (some "alias")) : Made (turned line).registry.aliases := by
  obtain ⟨call, read, named⟩ := callSeen (fun call => call.command.name) seen
  have count : unaliased.taskCount = 0 := by decide +kernel
  have stands := executedStands unaliasedReachable ⟨0⟩ line none
  rw [count] at stands
  have empty : unaliased.registry.aliases = .empty := by decide +kernel
  have made : Made (handed line).registry.aliases := by
    unfold handed
    rw [executedRegistry, empty]
    exact .none
  have calls : Calls (handed line) ⟨0⟩ ⟨0⟩ line none call := ⟨stands, plain, foreground, read⟩
  unfold turned
  exact madeTurn (handedReachable line) calls List.mem_cons_self named made .event

section Listing

variable {s : Shell} {arguments : Arguments}

theorem listingRun (bare : arguments.positionals = []) (c : Invocation) (left : Nat) (caller : Caller) :
    Shell.perform c left (Builtin.alias.handler arguments caller) s =
      (.ended .finished, if s.registry.aliases.entries = [] then s
        else (s.print c .output (Text.unlines ((s.registry.aliases.entries.map listed).map escape))).2) := by
  have lines : s.registry.aliases.entries.map (fun entry => aliasLine entry.1 entry.2) =
      (s.registry.aliases.entries.map listed).map escape := by
    rw [List.map_map]
    rfl
  change Shell.perform c left (runAlias arguments caller) s = _
  unfold runAlias
  rw [if_pos (List.isEmpty_iff.mpr bare)]
  change Shell.perform c left
    (if (s.registry.aliases.entries.map fun entry => aliasLine entry.1 entry.2).isEmpty then .finish
      else .say (Text.unlines (s.registry.aliases.entries.map fun entry => aliasLine entry.1 entry.2)) .finish) s = _
  rw [lines]
  by_cases none : s.registry.aliases.entries = []
  · rw [if_pos none, if_pos (by rw [none]; rfl), performFinish]
  · rw [if_neg none, if_neg (by simpa using none), performSay]

theorem listedSome (entry : Text × Text) : listed entry ≠ [] := by
  have begins : listed entry = 'a' :: ("lias " ++ entry.1 ++ "=" ++ Quoting.quote entry.2) := rfl
  rw [begins]
  exact List.cons_ne_nil _ _

theorem listedShown {entries : List (Text × Text)} (nonempty : entries ≠ [])
    (oneLine : ∀ entry ∈ entries, OneLine (listed entry)) {terminal : Terminal} (plain : terminal.ansi = false) :
    (Render.text .output (Text.unlines ((entries.map listed).map escape))).map terminal.formatLine =
      entries.map listed := by
  obtain rfl | ⟨before, last, rfl⟩ := List.eq_nil_or_concat' entries
  · exact absurd rfl nonempty
  have lines : ∀ v ∈ before.map listed ++ [listed last], OneLine v := by
    intro v mem
    rw [← List.map_singleton, ← List.map_append] at mem
    obtain ⟨entry, inside, rfl⟩ := List.mem_map.mp mem
    exact oneLine entry inside
  rw [List.map_append, List.map_singleton]
  exact ShownOrder.formatText plain lines (listedSome last)

structure Listed (s : Shell) (c : Invocation) (run : Halt × Shell) : Prop where
  ends : run.1 = .ended .finished
  silent : s.registry.aliases.entries = [] → run.2 = s
  heard : s.registry.aliases.entries ≠ [] → ∃ text,
    PlainRuns.Heard c.session [(.output, text)] s run.2 c.origin.job? ∧
    ∀ terminal : Terminal, terminal.ansi = false →
      (Render.text .output text).map terminal.formatLine = s.registry.aliases.entries.map listed
  inOrder : s.registry.aliases.keys.Pairwise (· < ·)
  reads : ∀ entry ∈ s.registry.aliases.entries,
    tokenize (listed entry) = .ok (definition entry) ↔ ∀ c ∈ entry.1, Ordinary c

theorem listsEntries (made : Made s.registry.aliases)
    (printable : ∀ entry ∈ s.registry.aliases.entries, Printable entry.1 ∧ Printable entry.2)
    (bare : arguments.positionals = []) (c : Invocation) (left : Nat) (caller : Caller) :
    Listed s c (Shell.perform c left (Builtin.alias.handler arguments caller) s) := by
  have proper := madeProper made
  rw [listingRun bare]
  refine {
    ends := rfl
    silent := fun empty => if_pos empty
    heard := fun nonempty => ⟨_, ?_, fun terminal plain => listedShown nonempty (fun entry mem =>
      listedOneLine (printable entry mem).1 (printable entry mem).2) plain⟩
    inOrder := proper.sorted
    reads := fun entry mem => readsBack (proper.names entry mem) ((printable entry mem).2 _ List.mem_cons_self) }
  rw [if_neg nonempty]
  exact PlainRuns.heardPrint s c.session c.origin.job? .output _

end Listing

theorem listsEntriesQuoted :
    let line : Text := "alias 'll=echo \"<hi>\"'"
    let c : Invocation := ⟨⟨0⟩, .foreground ⟨⟨1⟩, ⟨1⟩⟩, some "alias"⟩
    Made (turned line).registry.aliases ∧
      (turned line).registry.aliases.entries = [("ll".toList, "echo \"<hi>\"".toList)] ∧
      listed ("ll", "echo \"<hi>\"") = "alias ll='echo \"<hi>\"'" ∧
      Listed (turned line) c (Shell.perform c 0 (Builtin.alias.handler {} {}) (turned line)) := by
  intro line c
  have made : Made (turned line).registry.aliases :=
    turnedMade (by decide +kernel) (by decide +kernel) (by decide +kernel)
  have entries : (turned line).registry.aliases.entries = [("ll".toList, "echo \"<hi>\"".toList)] := by decide +kernel
  have printable : ∀ entry ∈ (turned line).registry.aliases.entries, Printable entry.1 ∧ Printable entry.2 := by
    rw [entries]
    decide
  exact ⟨made, entries, by decide +kernel, listsEntries made printable rfl c 0 {}⟩

theorem quotedNameUnread :
    let line : Text := "alias \"a'b=x\""
    let s := ((turned line).execute ⟨0⟩ "alias" none).2
    let terminal : Terminal := { session := ⟨0⟩, ansi := false, colored := false }
    ∃ call b, Calls s ⟨1⟩ ⟨0⟩ "alias" none call ∧ call.command.name = "alias" ∧ call.arguments.positionals = [] ∧
      Made s.registry.aliases ∧ s.registry.aliases.entries = [("a'b".toList, "x".toList)] ∧ Printable "a'b" ∧ Printable "x" ∧
      (s.resume .event ⟨1⟩).console.buffer? ⟨0⟩ = some b ∧
      b.lines.map terminal.formatLine = (["alias a'b=x"] : List Text) ∧
      tokenize "alias a'b=x" = .error .unterminatedQuote := by
  intro line s terminal
  have before : Made (turned line).registry.aliases :=
    turnedMade (by decide +kernel) (by decide +kernel) (by decide +kernel)
  have made : Made s.registry.aliases := by
    rw [executedRegistry]
    exact before
  have count : (turned line).taskCount = 1 := by decide +kernel
  have stands := executedStands (turnedReachable line) ⟨0⟩ "alias" none
  rw [count] at stands
  have seen : ((s.opened ⟨1⟩ ⟨0⟩ "alias").2.readCall ⟨0⟩ (Text.trim "alias")).map
      (Option.map fun call => (call.command.name, call.arguments.positionals)) = .ok (some ("alias", [])) := by
    decide +kernel
  obtain ⟨call, read, same⟩ := callSeen (fun call => (call.command.name, call.arguments.positionals)) seen
  obtain ⟨named, bare⟩ := Prod.mk.inj same
  have calls : Calls s ⟨1⟩ ⟨0⟩ "alias" none call := ⟨stands, by decide +kernel, by decide +kernel, read⟩
  obtain ⟨b, shown, lines⟩ : ∃ b, (s.resume .event ⟨1⟩).console.buffer? ⟨0⟩ = some b ∧
      b.lines.map terminal.formatLine = (["alias a'b=x"] : List Text) := by
    have printed : ((s.resume .event ⟨1⟩).console.buffer? ⟨0⟩).map (fun b => b.lines.map terminal.formatLine) =
        some ["alias a'b=x".toList] := by decide +kernel
    exact Option.map_eq_some_iff.mp printed
  exact ⟨call, b, calls, named, bare, made, by decide +kernel, by decide, by decide, shown, lines, by decide +kernel⟩

end ConsoleShell.AliasListing
