import ConsoleShell.Output.Terminal
import ConsoleShell.Proofs.AliasChains
import ConsoleShell.Proofs.Expansion
import ConsoleShell.Proofs.ReferenceBounds
import ConsoleShell.Proofs.Sound

/-! What is quoted is what is shown. A text between double quotes, with a backslash before everything
that has a meaning there, passes through all that is done to a line and comes out at the console
as it was. -/
namespace ConsoleShell.QuotedEcho
open Token Variable Markup Rendering Captured Shell

def quoted (v : Text) : Text :=
  v.flatMap fun c => if c = '\\' ∨ c = '"' ∨ c = '\'' ∨ c = '$' then ['\\', c] else [c]

def echoLine (v : Text) : Text := "echo -- \"" ++ quoted v ++ "\""

theorem quotedCons (c : Char) (rest : Text) :
    quoted (c :: rest) =
      (if c = '\\' ∨ c = '"' ∨ c = '\'' ∨ c = '$' then ['\\', c] else [c]) ++ quoted rest := rfl

theorem echoLineSpelled (v : Text) : echoLine v =
    'e' :: 'c' :: 'h' :: 'o' :: ' ' :: '-' :: '-' :: ' ' :: '"' :: (quoted v ++ ['"']) := rfl

/- Every dollar sign stands directly behind a backslash; `behind` says whether one stands in front. -/
def Guarded (behind : Bool) : Text → Prop
  | [] => True
  | c :: rest => (c = '$' → behind = true) ∧ Guarded (c = '\\') rest

theorem guardedOrdinary {chunk : Text} (ordinary : ∀ c ∈ chunk, Ordinary c) {rest : Text}
    {behind : Bool} (h : Guarded behind (chunk ++ rest)) (long : chunk ≠ []) :
    Guarded false rest := by
  induction chunk generalizing behind with
  | nil => exact absurd rfl long
  | cons c later ih =>
    have plain : c ≠ '\\' := (ordinary c List.mem_cons_self).1
    have next : Guarded false (later ++ rest) := by simpa [plain] using h.2
    cases later with
    | nil => exact next
    | cons d more => exact ih (fun e mem => ordinary e (List.mem_cons_of_mem _ mem)) next (by simp)

theorem guardedPieces {typed : Text} {ps : List Piece} (h : Pieced typed ps) {behind : Bool}
    (guarded : Guarded behind typed) (fresh : behind = true → Reference.read? typed = none) :
    ∀ r, Piece.reference r ∉ ps := by
  induction h generalizing behind with
  | nil => simp
  | literal alone next ih =>
    have later := ih guarded.2 (by simpa using alone)
    simpa using later
  | @kept r rest ps proper next ih =>
    have ordinary := Reference.textOrdinary proper
    have behindName := guardedOrdinary ordinary guarded.2 r.textNotEmpty
    have later := ih behindName (by simp)
    simpa using later
  | @reference r rest ps proper found next ih =>
    obtain ⟨tail, spelled⟩ := r.textDollar
    rw [spelled, List.cons_append] at guarded
    rw [fresh (guarded.1 rfl)] at found
    contradiction

theorem writtenFree (store : Variables) {ps : List Piece} (free : ∀ r, Piece.reference r ∉ ps) :
    Expansion.written store ps = ps.flatMap Piece.text := by
  induction ps with
  | nil => rfl
  | cons p rest ih =>
    have tail := ih fun r mem => free r (List.mem_cons_of_mem _ mem)
    have split : Expansion.written store (p :: rest) =
        Expansion.written store [p] ++ Expansion.written store rest := by
      simp [Expansion.written]
    rw [split, tail, List.flatMap_cons]
    cases p with
    | literal c => rfl
    | kept r => simp [Expansion.written]
    | reference r => exact absurd List.mem_cons_self (free r)

theorem expandGuarded (store : Variables) {typed : Text} (guarded : Guarded false typed) :
    store.expandLine typed = typed := by
  have free := guardedPieces (pieced typed) guarded (by simp)
  have whole := piecesText (pieced typed)
  rw [Expansion.expandWritten, writtenFree store free, whole]

theorem quotedGuarded (v : Text) (behind : Bool) : Guarded behind (quoted v ++ ['"']) := by
  induction v generalizing behind with
  | nil => simp [quoted, Guarded]
  | cons c rest ih =>
    rw [quotedCons]
    split
    · exact ⟨by simp, fun _ => rfl, ih _⟩
    · rename_i plain
      simp only [not_or] at plain
      exact ⟨fun same => absurd same plain.2.2.2, ih _⟩

theorem expandQuoted (store : Variables) (v : Text) :
    store.expandLine (echoLine v) = echoLine v := by
  apply expandGuarded
  rw [echoLineSpelled]
  simpa [Guarded] using quotedGuarded v false

theorem scanQuoted (w v rest : Text) :
    scan (some w) (some '"') (quoted v ++ rest) = scan (some (w ++ v)) (some '"') rest := by
  induction v generalizing w with
  | nil => simp [quoted]
  | cons c later ih =>
    have joined : w ++ c :: later = (w ++ [c]) ++ later := by simp
    rw [quotedCons, joined, ← ih]
    split
    · simp [scan, extend]
    · rename_i plain
      simp only [not_or] at plain
      have other : '"' ≠ c := Ne.symm plain.2.1
      simp [scan, extend, plain, other]

theorem tokenizeQuoted (v : Text) :
    tokenize (echoLine v) = .ok ["echo".toList, "--".toList, v] := by
  have inside := scanQuoted [] v ['"']
  have closed : scan (some v) (some '"') ['"'] = .ok [v] := by simp [scan]
  rw [List.nil_append, closed] at inside
  rw [echoLineSpelled]
  simp [tokenize, scan, extend, isQuote, isBlank, inside, Except.map]

theorem trimEndVisible (text : Text) {c : Char} (visible : isBlank c = false) :
    Text.trimEnd (text ++ [c]) = text ++ [c] := by
  simp [Text.trimEnd, visible]

theorem echoLineEnds (v : Text) : ∃ before, echoLine v = before ++ ['"'] := ⟨_, rfl⟩

theorem trimQuoted (v : Text) : Text.trim (echoLine v) = echoLine v := by
  have start : Text.trimStart (echoLine v) = echoLine v := by
    rw [echoLineSpelled]
    simp [Text.trimStart, isBlank]
  obtain ⟨before, whole⟩ := echoLineEnds v
  rw [Text.trim, start, whole]
  exact trimEndVisible before (by decide)

theorem noBackground (v : Text) : Background.command? (echoLine v) = none := by
  obtain ⟨before, whole⟩ := echoLineEnds v
  have unmarked : Text.dropEnd? ['&'] (before ++ ['"']) = none := by
    simp [Text.dropEnd?, List.isSuffixOf]
  rw [Background.command?, whole, trimEndVisible before (by decide), unmarked]
  rfl

theorem noAssignment (store : Variables) (v : Text) : store.assign? (echoLine v) = none := by
  have read : Assignment.read? (echoLine v) = none := by
    rw [echoLineSpelled]
    simp [Assignment.read?, Assignment.readExport?, Assignment.readBinding?, Text.trimStart,
      Text.dropStart?, takeName?, startsName, continuesName, isBlank]
  rw [Variables.assign?, read]
  rfl

def echoSchema : Schema := ⟨[
  ((Flag.string "color").withAlias "c" |>.withChoices (Color.all.map Color.name)
    |>.describedAs "Print in one of the eight ANSI colors.", none),
  ((Flag.boolean "error").withAlias "e" |>.describedAs "Print as an error.",
    some (.boolean false))]⟩

def echoCommand : Command Handler where
  name := "echo"
  description := "Print text to the console."
  hidden := false
  reading := .flags echoSchema Builtin.echo.positionals
  handler := Builtin.runEcho

theorem echoBuilt : Command.ofDeclaration Builtin.echo = .ok echoCommand := rfl

theorem echoParsed (v : Text) : ∃ a, echoCommand.parse ["--".toList, v] = .ok a ∧
    ∀ caller, echoCommand.handler a caller = .print .output (escape v) fun _ => .finish := by
  refine ⟨⟨(ArgumentScan.start echoSchema).flags, [escape v]⟩, rfl, fun caller => ?_⟩
  generalize made : Arguments.mk (ArgumentScan.start echoSchema).flags [escape v] = a
  have colorless : a.text? "color" = none := by rw [← made]; rfl
  have regular : a.isOn "error" = false := by rw [← made]; rfl
  have words : Text.join [' '] a.positionals = escape v := by rw [← made]; simp [Text.join]
  unfold echoCommand Builtin.runEcho
  dsimp only
  rw [colorless, regular, words]
  rfl

structure OneLine (v : Text) : Prop where
  calm : Render.escapeCharacter ∉ v
  unbroken : '\n' ∉ v
  ending : v.getLast? ≠ some '\r'

theorem escapeEnding {c : Char} (foreign : ∀ e ∈ entities, c ∉ e) {v : Text}
    (ending : v.getLast? ≠ some c) : (escape v).getLast? ≠ some c := by
  intro ends
  rcases List.eq_nil_or_concat v with rfl | ⟨before, last, rfl⟩
  · simp [escape] at ends
  · simp only [List.concat_eq_append, List.getLast?_append, List.getLast?_singleton] at ending
    have cut : escape (before.concat last) = escape before ++ entity last := by simp [escape]
    rw [cut, List.getLast?_append] at ends
    by_cases isSpecial : last ∈ special
    · have long := entityLong last isSpecial
      cases tail : (entity last).getLast? with
      | none => simp [List.getLast?_eq_none_iff.mp tail] at long
      | some d =>
        rw [tail] at ends
        cases Option.some.inj ends
        exact foreign _ (entityListed last isSpecial) (List.mem_of_getLast? tail)
    · rw [entityPlain isSpecial, List.getLast?_singleton] at ends
      exact ending ends

theorem dropLastOther {c : Char} {text : Text} (ending : text.getLast? ≠ some c) :
    Text.dropLastIf c text = text := by
  unfold Text.dropLastIf Text.dropEnd?
  rw [if_neg]
  · rfl
  · intro ends
    obtain ⟨before, rfl⟩ := List.isSuffixOf_iff_suffix.mp ends
    simp at ending

theorem renderQuoted {v : Text} (h : OneLine v) :
    Render.text .output (escape v) = [Render.line (escape v)] := by
  have unbroken := escapeAbsent lineFeedForeign h.unbroken
  have noFeed : Text.dropLastIf '\n' (escape v) = escape v :=
    dropLastOther fun ends => unbroken (List.mem_of_getLast? ends)
  unfold Render.text Render.rawLines
  rw [noFeed, fieldsFree unbroken]
  simp [dropLastOther (escapeEnding carriageForeign h.ending)]

theorem formatQuoted {v : Text} (h : OneLine v) {terminal : Terminal} (plain : terminal.ansi = false) :
    terminal.formatLine (Render.line (escape v)) = v := by
  have calm := escapeAbsent (fun e listed => (entitiesCalm e listed).2) h.calm
  unfold Terminal.formatLine
  rw [if_neg (by simp [plain]), plainCalm calm]
  exact unescapeEscape v

theorem readCallMade {s : Shell} {session : SessionId} {line name : Text} {words : List Text}
    {command : Command Handler} {a : Arguments}
    (typed : tokenize (s.expandLine session line) = .ok (name :: words))
    (found : s.registry.command? (s.registry.resolve name).command = some command)
    (parsed : command.parse ((s.registry.resolve name).arguments ++ words) = .ok a) :
    s.readCall session line = .ok (some ⟨command, a⟩) := by
  unfold Shell.readCall
  rw [mapErrorOk.mpr typed]
  refine bindOk.mpr ⟨_, rfl, ?_⟩
  dsimp only
  rw [found]
  exact bindOk.mpr ⟨_, mapErrorOk.mpr parsed, rfl⟩

theorem readQuoted {s : Shell} (h : Sound s) (noAlias : s.registry.aliases.get? "echo" = none)
    (session : SessionId) (v : Text) :
    ∃ a, s.readCall session (echoLine v) = .ok (some ⟨echoCommand, a⟩) ∧
      ∀ caller, echoCommand.handler a caller = .print .output (escape v) fun _ => .finish := by
  obtain ⟨c, built, known⟩ := h.provided.all Builtin.echo (by simp [Builtin.all])
  cases echoBuilt.symm.trans built
  obtain ⟨a, parsed, prints⟩ := echoParsed v
  have expanded : s.expandLine session (echoLine v) = echoLine v := by
    unfold Shell.expandLine
    split
    · rfl
    · exact expandQuoted _ v
  have resolved : s.registry.resolve "echo" = { command := "echo" } := by
    exact AliasChains.followNone noAlias _ _
  refine ⟨a, readCallMade (expanded.symm ▸ tokenizeQuoted v) ?_ ?_, prints⟩
  · rw [resolved]
    exact known
  · rw [resolved]
    exact parsed

theorem dispatchQuoted {s : Shell} (h : Sound s) (noAlias : s.registry.aliases.get? "echo" = none)
    (id : TaskId) (session : SessionId) (scope : Scope) (v : Text) (piped : Option (List Text)) :
    s.dispatch id session (.foreground scope) (echoLine v) piped =
      ((s.printAt session none .output (escape v)).2.finishScope session scope).recordOutcome id .ok := by
  obtain ⟨a, read, prints⟩ := readQuoted h noAlias session v
  unfold Shell.dispatch
  rw [read]
  dsimp only
  rw [prints]
  rfl

theorem startQuoted {s : Shell} (h : Sound s) (noAlias : s.registry.aliases.get? "echo" = none)
    (id : TaskId) (session : SessionId) (v : Text) (piped : Option (List Text)) :
    let t := s.startLine id session (echoLine v) piped
    t.console = (s.console.print session .output (escape v)).2 ∧
      t.outcomes = s.outcomes ++ [(id, .ok)] := by
  have nonempty : (echoLine v).isEmpty = false := rfl
  have remembered : Sound (s.remember session (echoLine v)) := soundSession h session _
  have unassigned : (s.remember session (echoLine v)).assign? session (echoLine v) = none := by
    unfold Shell.assign?
    cases (s.remember session (echoLine v)).sessions.get? session with
    | none => rfl
    | some data => simp [noAssignment]
  have begun := soundKept remembered (keptOnScopes _ _) (cleanBegin remembered.toClean session)
  have quiet := silentBegin remembered.scopes session
  unfold Shell.startLine
  dsimp only
  rw [trimQuoted, if_neg (by simp [nonempty]), unassigned, noBackground]
  dsimp only
  unfold Shell.beginScope at begun ⊢
  rw [quiet] at begun ⊢
  rw [dispatchQuoted begun noAlias]
  exact ⟨rfl, rfl⟩

theorem printedBuffer {c : Console} {session : SessionId} {b : Buffer}
    (found : c.buffer? session = some b) (kind : OutputKind) (text : Text) :
    (c.print session kind text).2.buffer? session =
      some ⟨b.groups ++ [⟨⟨b.lastId + 1⟩, kind, Render.text kind text⟩], b.lastId + 1⟩ := by
  unfold Console.print Console.pushLines
  rw [found]
  unfold Console.buffer? Console.publish Console.setBuffer
  dsimp only
  rw [Dict.getInsert, if_pos rfl]
  rfl

theorem lookupAdded {α : Type} {entries : List (TaskId × α)} {id : TaskId} {value : α}
    (fresh : ∀ entry ∈ entries, entry.1 ≠ id) :
    (entries ++ [(id, value)]).lookup id = some value := by
  induction entries with
  | nil => simp
  | cons entry rest ih =>
    rw [List.cons_append, Dict.lookupCons, if_neg (Ne.symm (fresh entry List.mem_cons_self))]
    exact ih fun later mem => fresh later (List.mem_cons_of_mem _ mem)

def Shown (before after : Shell) (task : TaskId) (session : SessionId) (v : Text) : Prop :=
  after.outcome? task = some .ok ∧
    ∃ b line, before.console.buffer? session = some b ∧
      after.console.buffer? session =
        some ⟨b.groups ++ [⟨⟨b.lastId + 1⟩, .output, [line]⟩], b.lastId + 1⟩ ∧
      ∀ terminal : Terminal, terminal.ansi = false → terminal.formatLine line = v

theorem quotedTurn {s : Shell} (reachable : Reachable s) {session : SessionId}
    (isOpen : s.isOpen session = true) (noAlias : s.registry.aliases.get? "echo" = none)
    {v : Text} (oneLine : OneLine v) {task : TaskId} {piped : Option (List Text)}
    (waiting : s.tasks.lookup task = some (.line session (echoLine v) piped)) (tie : Tie) :
    Shown s (s.resume tie task) task session v := by
  have h := soundReachable reachable
  have turn := turnWithdrawn h (lookedUp waiting)
  obtain ⟨console, outcomes⟩ := startQuoted (soundWithdraw h task) noAlias task session v piped
  have goes : s.resume tie task = (s.withdraw task).startLine task session (echoLine v) piped := by
    unfold Shell.resume
    rw [waiting]
    rfl
  rw [goes]
  obtain ⟨b, found⟩ := Option.isSome_iff_exists.mp (h.buffers session isOpen)
  refine ⟨?_, b, Render.line (escape v), found, ?_, fun terminal plain => formatQuoted oneLine plain⟩
  · unfold Shell.outcome?
    rw [outcomes]
    exact lookupAdded turn.unsettled
  · have shown := printedBuffer found .output (escape v)
    rw [console]
    rw [renderQuoted oneLine] at shown
    exact shown

/- Whatever the session has stored and whatever aliases there are, as long as none hides the command,
what is quoted is what is shown. -/
theorem shownAsQuoted {s : Shell} (reachable : Reachable s) {session : SessionId}
    (isOpen : s.isOpen session = true) (store : Variables) {aliases : Dict Text Text}
    (noAlias : aliases.get? "echo" = none) {v : Text} (calm : Render.escapeCharacter ∉ v)
    (unbroken : '\n' ∉ v) (ending : v.getLast? ≠ some '\r') (piped : Option (List Text)) (tie : Tie) :
    let before := { s with registry := { s.registry with aliases } }.onStore session fun _ => store
    let called := before.execute session (echoLine v) piped
    Shown before (called.2.resume tie called.1) called.1 session v := by
  intro before called
  have there : Reachable before := (reachable.step (.setAliases s aliases)).step (.setStore _ _ _)
  have stillOpen : before.isOpen session = true := by
    rw [← isOpen]
    exact (keptSession _ session _).opened session
  have fresh := (turnNew (soundReachable there)).taken
  exact quotedTurn (there.step (.execute _ _ _ _)) stillOpen noAlias ⟨calm, unbroken, ending⟩
    (lookupAdded fresh) tie

def meaningful : Text := "--x=1 \"$HOME\" '$\x7bA\x7d' \\$ &lt; <b> &amp &"

theorem shownAsQuotedMeaningful :
    let s := (started Config.standard).openSession.2
    let before := { s with registry := { s.registry with aliases := .ofList [("e", "echo")] } }.onStore
      ⟨0⟩ fun _ => { session := .ofList [("A", "\"")] }
    let called := before.execute ⟨0⟩ (echoLine meaningful) none
    Shown before (called.2.resume .event called.1) called.1 ⟨0⟩ meaningful :=
  shownAsQuoted ((reachableStarted _).step (.openSession _)) (by decide +kernel) _
    (by decide +kernel) (by decide +kernel) (by decide +kernel) (by decide +kernel) none .event

end ConsoleShell.QuotedEcho
