import ConsoleShell.Proofs.Complaints
import ConsoleShell.Proofs.TerminalText

/-! Words that are rejected. The report of an error is escaped as a whole, so a terminal shows what the error
cites as the error holds it. -/
namespace ConsoleShell.Rejections
open Actions CalledLines Citations Complaints Markup
open Shell (Begins LineEnd Reachable Runs)

variable {s t : Shell} {c : Invocation} {p : Program} {f : Failure} {left : Nat}

theorem muteAsked {wait : RequestId → Wait} :
    let asked : Halt × Shell := match s.awaitLine c with
      | (.ok request, s) => (.waiting (wait request), s)
      | (.error failure, s) => (.ended (.failed failure), s)
    asked.1 = .ended (.failed f) → citedFailure f = [] := by
  unfold Shell.awaitLine
  dsimp only
  split
  · rename_i request u asked
    exact fun ended => nomatch ended
  · rename_i failure u asked
    intro ended
    cases ended
    split at asked
    · cases asked
      rfl
    · split at asked <;> cases asked
      rfl

theorem mutePerform (each : Each Mute p) (ended : (Shell.perform c left p s).1 = .ended (.failed f)) :
    citedFailure f = [] := by
  induction p generalizing left s with
  | finish | crash => cases ended
  | fail failure =>
    cases ended
    exact each
  | print kind text next ih | update group text next ih | delete group next ih | inspect next ih =>
    exact ih _ (each.2 _) ended
  | kill job next ih => exact each.1.elim
  | clear next ih | replay groups next ih | change what next ih | onCancel text next ih =>
    exact ih each.2 ended
  | roll sides next ih =>
    unfold Shell.perform at ended
    generalize s.roll sides = roll at ended
    exact ih _ (each.2 _) ended
  | sleep span stopped next stoppedIh nextIh =>
    unfold Shell.perform at ended
    split at ended
    · exact stoppedIh each.2.1 ended
    · split at ended
      · cases ended
      · split at ended
        · exact nextIh each.2.2 ended
        · cases ended
  | readLine next ih =>
    unfold Shell.perform at ended
    exact muteAsked ended
  | confirm message next ih =>
    unfold Shell.perform at ended
    exact muteAsked ended
  | awaitJob job next ih =>
    unfold Shell.perform at ended
    split at ended
    · exact ih _ (each.2 _) ended
    · cases ended
      rfl
    · split at ended <;> cases ended
      rfl
  | awaitCancel next ih =>
    unfold Shell.perform at ended
    split at ended
    · exact ih each.2 ended
    · cases ended

/- Behind a pause no word is complained about. -/
def MuteBehind : Program → Prop
  | .sleep _ stopped next => Each Mute stopped ∧ Each Mute next
  | .readLine next => ∀ line, Each Mute (next line)
  | .confirm _ next => ∀ yes, Each Mute (next yes)
  | .awaitJob _ next => ∀ found, Each Mute (next found)
  | .awaitCancel next => Each Mute next
  | _ => True

theorem briefBehind (brief : Brief p) : MuteBehind p := by
  cases p <;> trivial

theorem eachBehind (each : Each Mute p) : Each MuteBehind p := by
  induction p with
  | finish | fail | crash => trivial
  | print kind text next ih | update group text next ih | delete group next ih | inspect next ih
  | roll sides next ih =>
    exact ⟨trivial, fun answer => ih answer (each.2 answer)⟩
  | kill job next ih => exact each.1.elim
  | clear next ih | replay groups next ih | change what next ih | onCancel text next ih =>
    exact ⟨trivial, ih each.2⟩
  | sleep span stopped next stoppedIh nextIh => exact ⟨each.2, stoppedIh each.2.1, nextIh each.2.2⟩
  | readLine next ih | confirm message next ih | awaitJob job next ih =>
    exact ⟨each.2, fun answer => ih answer (each.2 answer)⟩
  | awaitCancel next ih => exact ⟨each.2, ih each.2⟩

theorem everyBehind : Every MuteBehind := by
  intro d mem arguments caller
  rcases briefCommands mem with pauses | brief
  · simp only [pausing, List.mem_cons, List.not_mem_nil, or_false] at pauses
    rcases pauses with rfl | rfl | rfl | rfl | rfl
    · exact .inr (eachBehind ⟨trivial, fun _ => ⟨trivial, fun _ => trivial⟩⟩)
    · refine .inr (eachOrFail (fun _ => trivial) fun id => eachBehind ?_)
      exact ⟨trivial, fun _ => ⟨trivial, trivial, fun _ => ⟨trivial, fun _ => trivial⟩⟩⟩
    · exact .inr (eachBehind (muteProgress arguments caller))
    · refine .inr (eachOrFail (fun _ => trivial) fun _ => ?_)
      split
      · exact ⟨trivial, fun _ => eachBehind ⟨trivial, fun _ => ⟨trivial, trivial⟩⟩⟩
      · exact eachBehind ⟨trivial, fun _ => ⟨trivial, trivial⟩⟩
    · show Called MuteBehind (Builtin.runSleep arguments caller)
      unfold Builtin.runSleep
      dsimp only
      split
      · exact .inr trivial
      · split
        · exact .inl rfl
        · exact .inr (eachBehind ⟨trivial, rfl, trivial⟩)
  · exact .inr ((brief arguments caller).mono fun _ => briefBehind)

theorem muteTaken {request : RequestId} {next : Text → Shell → Halt × Shell}
    (goes : ∀ text s, (next text s).1 = .ended (.failed f) → citedFailure f = [])
    (ended : (Shell.takeLine request s next).1 = .ended (.failed f)) : citedFailure f = [] := by
  unfold Shell.takeLine at ended
  split at ended
  · exact goes _ _ ended
  · cases ended
    rfl
  · cases ended
    rfl

theorem muteProceed {wait : Wait} (each : WaitEach MuteBehind wait)
    (ended : (Shell.proceed c s wait).1 = .ended (.failed f)) : citedFailure f = [] := by
  cases wait with
  | sleep due stopped next =>
    obtain ⟨span, each⟩ := each
    exact mutePerform each.1.2 ended
  | line request next => exact muteTaken (fun text s => mutePerform (each.1 text)) ended
  | answer request next =>
    obtain ⟨message, each⟩ := each
    refine muteTaken (fun text s ended => ?_) ended
    split at ended
    · exact mutePerform (each.1 true) ended
    · exact mutePerform (each.1 false) ended
    · exact muteAsked ended
  | job watch next => exact mutePerform (p := .awaitJob watch.job next) ⟨trivial, each.1⟩ ended
  | cancel next => exact mutePerform each.1 ended

theorem muteAbort {wait : Wait} (each : WaitEach MuteBehind wait)
    (ended : (Shell.abort c s wait).1 = .ended (.failed f)) : citedFailure f = [] := by
  cases wait with
  | sleep due stopped next =>
    obtain ⟨span, each⟩ := each
    exact mutePerform each.1.1 ended
  | line request next | answer request next | job watch next =>
    cases ended
    rfl
  | cancel next => exact mutePerform each.1 ended

theorem muteGoOn {wait : Wait} {tie : Shell.Tie} (each : WaitEach MuteBehind wait)
    (ended : (Shell.goOn tie c wait s).1 = .ended (.failed f)) : citedFailure f = [] := by
  unfold Shell.goOn at ended
  split at ended
  · exact muteProceed each ended
  · exact muteProceed each ended
  · exact muteAbort each ended
  · exact muteAbort each ended
  · cases ended

theorem killAnswers (s : Shell) (id : JobId) :
    (∃ outcome, (s.killJob id).1 = .ok outcome) ∨ (s.killJob id).1 = .error (.notFound id) := by
  have answers : (s.killJob id).1 = (s.jobs.kill id s.wall).1 := rfl
  rw [answers]
  unfold Jobs.kill Jobs.markKilled
  cases s.jobs.table.get? id with
  | none => exact .inr rfl
  | some job =>
    dsimp only
    by_cases final : job.status.isFinal = true
    · rw [if_pos final]
      exact .inl ⟨_, rfl⟩
    · rw [if_neg final]
      dsimp only
      split <;> exact .inl ⟨_, rfl⟩

theorem changeConsole (s : Shell) (session : SessionId) (what : Change) :
    (s.change session what).console = s.console := by
  cases what with
  | requestExit =>
    show (s.requestExit session).console = s.console
    unfold Shell.requestExit
    split <;> rfl
  | _ => rfl

def Printed (b : Buffer) (after : Option Buffer) : Prop :=
  ∃ printed last, (∀ g ∈ printed, g.kind = .output) ∧ after = some ⟨b.groups ++ printed, last⟩

theorem printedNothing (b : Buffer) : Printed b (some b) :=
  ⟨[], b.lastId, (fun _ mem => nomatch mem), by rw [List.append_nil]⟩

theorem complainsPerform {words : List Text} (complains : Complains words p) (own : c.origin.job? = none)
    (ended : (Shell.perform c left p s).1 = .ended (.failed f)) (cites : citedFailure f ≠ []) :
    (∃ word ∈ words, Faults word f) ∧ ∀ b, s.console.buffer? c.session = some b →
      Printed b ((Shell.perform c left p s).2.console.buffer? c.session) := by
  induction complains generalizing left s with
  | fails mem faults =>
    cases ended
    exact ⟨⟨_, mem, faults⟩, fun b found => found ▸ printedNothing b⟩
  | silent each => exact absurd (mutePerform each ended) cites
  | @prints text next later ih =>
    obtain ⟨faulty, keeps⟩ := ih _ ended
    refine ⟨faulty, fun b found => ?_⟩
    have printed : (s.print c .output text).2.console.buffer? c.session =
        some ⟨b.groups ++ [⟨⟨b.lastId + 1⟩, .output, Render.text .output text⟩], b.lastId + 1⟩ := by
      unfold Shell.print Shell.printAt
      rw [own]
      exact QuotedEcho.printedBuffer found .output text
    obtain ⟨more, last, regular, after⟩ := keeps _ printed
    refine ⟨⟨⟨b.lastId + 1⟩, .output, Render.text .output text⟩ :: more, last, ?_, ?_⟩
    · exact List.forall_mem_cons.mpr ⟨rfl, regular⟩
    · rw [List.append_assoc] at after
      exact after
  | inspects later ih => exact ih _ ended
  | @changes what next later ih =>
    have kept := ih (s := s.change c.session what) ended
    rw [changeConsole] at kept
    exact kept
  | @kills id next killed missing =>
    refine absurd ?_ cites
    change (Shell.perform c left (next (s.killJob id).1) (s.killJob id).2).1 = _ at ended
    rcases killAnswers s id with ⟨outcome, answer⟩ | answer
    · rw [answer] at ended
      exact mutePerform (killed outcome) ended
    · rw [answer] at ended
      exact mutePerform missing ended

def Clear (text : Text) : Prop := ∀ c ∈ text, c ≠ Render.escapeCharacter ∧ c ≠ '\n' ∧ c ≠ '\r'

instance (text : Text) : Decidable (Clear text) :=
  List.decidableBAll (fun c => c ≠ Render.escapeCharacter ∧ c ≠ '\n' ∧ c ≠ '\r') text

variable {word : Text}

theorem clearAppend {a b : Text} (first : Clear a) (second : Clear b) : Clear (a ++ b) :=
  List.forall_mem_append.mpr ⟨first, second⟩

theorem clearBetween {a b : Text} (around : Clear a ∧ Clear b) (clear : Clear word) : Clear (a ++ word ++ b) :=
  clearAppend (clearAppend around.1 clear) around.2

theorem clearJoin {separator : Text} (between : Clear separator) {texts : List Text}
    (each : ∀ text ∈ texts, Clear text) : Clear (Text.join separator texts) := by
  unfold Text.join
  induction texts with
  | nil => exact fun _ mem => nomatch mem
  | cons first rest ih =>
    obtain ⟨here, later⟩ := List.forall_mem_cons.mp each
    cases rest with
    | nil => simpa using here
    | cons next more =>
      rw [List.intercalate_cons_cons]
      exact clearAppend (clearAppend here between) (ih later)

theorem clearQuoted {q : Text} (quoted : Quoted word q) (clear : Clear word) : Clear q :=
  fun c mem => clear c (quotedMember quoted c mem)

theorem clearEscape (clear : Clear word) : Clear (escape word) := by
  have foreign : ∀ e ∈ entities, Clear e := by decide
  intro c mem
  obtain ⟨d, inside, listed⟩ := List.mem_flatMap.mp mem
  by_cases isSpecial : d ∈ special
  · exact foreign _ (entityListed d isSpecial) c listed
  · rw [entityPlain isSpecial, List.mem_singleton] at listed
    exact listed ▸ clear d inside

def Spelled (flags : List Flag) : Prop :=
  ∀ f ∈ flags, Clear f.name ∧ ∀ allowed ∈ f.choices, ∀ text ∈ allowed, Clear text

theorem blamesClear {schema : Schema} {e : FlagError} (blames : Blames schema word e)
    (spelled : Spelled schema.flags) (clear : Clear word) : Clear e.message := by
  have quotes {q : Text} (mem : q ∈ citedFlag e) : Clear q := clearQuoted (blamesQuoted blames mem) clear
  cases blames with
  | unknown quoted =>
    exact clearBetween (by decide) (quotes List.mem_cons_self)
  | number listed quoted =>
    refine clearAppend (clearAppend (clearAppend (clearAppend ?_ (spelled _ listed).1) ?_)
      (quotes List.mem_cons_self)) ?_ <;> decide
  | choice listed choices quoted =>
    refine clearAppend (clearAppend (clearAppend (clearAppend (clearAppend (clearAppend ?_ (spelled _ listed).1) ?_)
      (quotes List.mem_cons_self)) ?_) (clearJoin ?_ ((spelled _ listed).2 _ choices))) ?_ <;> decide
  | grouped cluster mem =>
    refine clearAppend (clearAppend (clearAppend (clearAppend ?_ (quotes List.mem_cons_self)) ?_)
      (quotes (List.mem_cons_of_mem _ List.mem_cons_self))) ?_ <;> decide

/- A command reads back the word that it cites, unless the word should have been the number of a job. -/
theorem faultsQuoted (faults : Faults (escape word) f) {q : Text} (mem : q ∈ citedFailure f) :
    Quoted word q ∨ f = .job (.invalidId q) ∧ q = escape word := by
  cases faults with
  | number =>
    cases List.mem_singleton.mp mem
    exact .inr ⟨rfl, rfl⟩
  | typed reads =>
    rw [unescapeEscape] at reads
    exact .inl (reads q mem)

theorem failureClear (cites : citedFailure f ≠ []) (clear : ∀ q ∈ citedFailure f, Clear q) : Clear f.message := by
  cases f with
  | job error =>
    cases error with
    | notFound id => exact absurd rfl cites
    | invalidId typed =>
      exact clearBetween (by decide) (clear typed List.mem_cons_self)
  | noSuchVariable text | noSuchAlias text => exact clearAppend (clear text List.mem_cons_self) (by decide)
  | unknownColor text | invalidDuration text | invalidDice text | invalidVariableName text
  | invalidAliasName text | aliasWithoutTarget text | noHelp text | neitherOnNorOff text =>
    exact clearBetween (by decide) (clear text List.mem_cons_self)
  | _ => exact absurd rfl cites

theorem errorParts (text : Text) : ∃ parts : List TerminalText.Part,
    Sgr.red ++ escape text ++ Sgr.reset = TerminalText.written parts ∧
      parts.flatMap TerminalText.Part.original = text ∧
      (Render.escapeCharacter ∉ text → ∀ part ∈ parts, part.Calm) := by
  let red : TerminalText.Part := .selection ['3', '1'] (by simp [Render.endsSequence]) (by simp [special])
  let reset : TerminalText.Part := .selection ['0'] (List.forall_mem_singleton.mpr rfl) (by simp [special])
  refine ⟨[red, .escaped text, reset], ?_, ?_, ?_⟩
  · have before : Sgr.red = red.text := by decide
    have after : Sgr.reset = reset.text := by decide
    rw [before, after]
    simp [TerminalText.written, TerminalText.Part.text]
  · simp [red, reset, TerminalText.Part.original]
  · intro calm
    simp [red, reset, TerminalText.Part.Calm, TerminalText.Part.original, calm]

theorem errorShown {message : Text} (clear : Clear message) {terminal : Terminal} (plain : terminal.ansi = false) :
    (Render.text .error (escape message)).map terminal.formatLine = [message] := by
  have unbroken : '\n' ∉ escape message := fun mem => (clearEscape clear _ mem).2.1 rfl
  have noFeed : Text.dropLastIf '\n' (escape message) = escape message :=
    QuotedEcho.dropLastOther fun ends => unbroken (List.mem_of_getLast? ends)
  have noReturn : Text.dropLastIf '\r' (escape message) = escape message :=
    QuotedEcho.dropLastOther fun ends => (clearEscape clear _ (List.mem_of_getLast? ends)).2.2 rfl
  have raw : Render.rawLines (escape message) = [escape message] := by
    unfold Render.rawLines
    rw [noFeed, Rendering.fieldsFree unbroken, List.map_singleton, noReturn]
  obtain ⟨parts, written, whole, calm⟩ := errorParts message
  have shown := TerminalText.shownWritten (calm fun mem => (clear _ mem).1 rfl)
  unfold Render.text Terminal.formatLine
  rw [raw, List.map_singleton, List.map_singleton, if_neg (by simp [plain])]
  dsimp only
  rw [written, EscapedText.shownPlain, shown, unescapeEscape, whole]

def Handed (t : Shell) (session : SessionId) (line : Text) (command : Command Handler) (words : List Text) : Prop :=
  ∃ name rest, tokenize (t.expandLine session line) = .ok (name :: rest) ∧
    t.registry.command? (t.registry.resolve name).command = some command ∧
    words = (t.registry.resolve name).arguments ++ rest

section Reading

variable {session : SessionId} {line : Text}

theorem readGiven {call : Call} (read : t.readCall session line = .ok (some call)) :
    ∃ words, Handed t session line call.command words ∧ call.command.parse words = .ok call.arguments := by
  unfold Shell.readCall at read
  obtain ⟨typed, tokenized, read⟩ := bindOk.mp read
  split at read
  · cases read
  · rename_i name rest
    dsimp only at read
    split at read
    · rename_i command found
      obtain ⟨arguments, parsed, same⟩ := bindOk.mp read
      cases same
      exact ⟨_, ⟨name, rest, mapErrorOk.mp tokenized, found, rfl⟩, mapErrorOk.mp parsed⟩
    · cases read

theorem mapErrorFails {ε ε' α : Type} {x : Except ε α} {g : ε → ε'} {e : ε'} (failed : x.mapError g = .error e) :
    ∃ cause, x = .error cause ∧ e = g cause := by
  cases x with
  | error cause =>
    cases failed
    exact ⟨cause, rfl, rfl⟩
  | ok a => cases failed

theorem readRefused {e : LineError} (failed : t.readCall session line = .error e) (cites : cited e ≠ []) :
    ∃ command words error, Handed t session line command words ∧ command.parse words = .error error ∧
      e = .arguments error := by
  unfold Shell.readCall at failed
  rcases bindFails.mp failed with broken | ⟨typed, tokenized, failed⟩
  · obtain ⟨cause, -, rfl⟩ := mapErrorFails broken
    exact absurd rfl cites
  · split at failed
    · cases failed
    · rename_i name rest
      dsimp only at failed
      split at failed
      · rename_i command found
        rcases bindFails.mp failed with refused | ⟨arguments, -, done⟩
        · obtain ⟨error, parsed, same⟩ := mapErrorFails refused
          exact ⟨command, _, error, ⟨name, rest, mapErrorOk.mp tokenized, found, rfl⟩, parsed, same⟩
        · cases done
      · cases failed
        exact absurd rfl cites

end Reading

/- The report of an error about a word, behind what the command had printed till then. It cites the word as it
was typed, or part of it. The number of a job is cited as the command was handed it. -/
structure Reported (before after : Shell) (session : SessionId) (e : LineError) (word : Text) : Prop where
  group : before.isOpen session = true → ∃ b printed g last, before.console.buffer? session = some b ∧
    after.console.buffer? session = some ⟨b.groups ++ printed ++ [g], last⟩ ∧
    (∀ other ∈ printed, other.kind = .output) ∧ g.kind = .error ∧
    (Clear word → ∀ terminal : Terminal, terminal.ansi = false → g.lines.map terminal.formatLine = [e.message])
  quoted : ∀ q ∈ cited e, q <:+: e.message ∧
    (Quoted word q ∨ ∃ name, e = .command name (.job (.invalidId q)) ∧ q = escape word)

section Reports

variable {id : TaskId} {scope : Scope} {session : SessionId} {e : LineError} {tie : Shell.Tie}

theorem concludedReport (reachable : Reachable s)
    (printed : ∀ b, s.console.buffer? session = some b → Printed b (t.console.buffer? session))
    (readable : Clear word → Clear e.message)
    (quoted : ∀ q ∈ cited e, Quoted word q ∨ ∃ name, e = .command name (.job (.invalidId q)) ∧ q = escape word) :
    Reported s (t.conclude id session (.foreground scope) (.failed e)) session e word := by
  refine ⟨fun isOpen => ?_, fun q mem => ⟨citedWithin mem, quoted q mem⟩⟩
  obtain ⟨b, found⟩ := Option.isSome_iff_exists.mp ((Shell.soundReachable reachable).buffers session isOpen)
  obtain ⟨groups, last, regular, console⟩ := printed b found
  let report : Group := ⟨⟨last + 1⟩, .error, Render.text .error (escape e.message)⟩
  have after := QuotedEcho.printedBuffer console .error (escape e.message)
  exact ⟨b, groups, report, last + 1, found, after, regular, rfl,
    fun clear terminal plain => errorShown (readable clear) plain⟩

theorem commandBlames {d : Declaration} {command : Command Handler} {words : List Text} {error : FlagError}
    (mem : d ∈ Builtin.all) (built : Command.ofDeclaration d = .ok command)
    (refused : command.parse words = .error error) (cites : citedFlag error ≠ []) :
    ∃ schema, Spelled schema.flags ∧ ∃ word ∈ words, Blames schema word error := by
  have declared : ∀ d ∈ Builtin.all, Spelled (d.flags.getD []) := by
    unfold Spelled
    decide
  unfold Command.ofDeclaration at built
  split at built
  · cases built
    cases refused
  · rename_i defs flags
    obtain ⟨schema, made, same⟩ := bindOk.mp built
    cases same
    refine ⟨schema, fun f listed => ?_, (parseBlames refused).resolve_left cites⟩
    obtain ⟨own, inside, settles⟩ := (Schema.builtFits made).declared f listed
    have spelled := declared d mem own (flags ▸ inside)
    rw [settles.same]
    exact spelled

theorem refusedReport (reachable : Reachable s) {typed : Text} {piped : Option (List Text)}
    (stands : s.tasks.lookup id = some (.line session typed piped))
    (refused : (s.opened id session typed).2.readCall session (Text.trim typed) = .error e) (cites : cited e ≠ []) :
    ∃ command words word, Handed (s.opened id session typed).2 session (Text.trim typed) command words ∧
      word ∈ words ∧ Reported s ((s.opened id session typed).2.conclude id session
        (.foreground (s.opened id session typed).1) (.failed e)) session e word := by
  obtain ⟨command, words, error, handed, rejected, rfl⟩ := readRefused refused cites
  have ⟨name, rest, _, found, _⟩ := handed
  have provided := (Begins.line stands).kept.commands.symm ▸ (Shell.soundReachable reachable).provided
  obtain ⟨d, mem, built⟩ := Dict.everyFound provided.only found
  obtain ⟨schema, spelled, word, inside, blames⟩ := commandBlames mem built rejected cites
  refine ⟨command, words, word, handed, inside, concludedReport reachable (fun b there => ?_)
    (blamesClear blames spelled) fun q mem => .inl (blamesQuoted blames mem)⟩
  rw [openedConsole reachable, there]
  exact printedNothing b

theorem complainedReport (reachable : Reachable s) {typed : Text} {piped : Option (List Text)} {call : Call}
    (stands : s.tasks.lookup id = some (.line session typed piped))
    (read : (s.opened id session typed).2.readCall session (Text.trim typed) = .ok (some call))
    (ended : (Shell.perform (called s id session typed call) Shell.fullTurn
      (call.command.handler call.arguments ⟨none, piped⟩) (s.opened id session typed).2).1 = .ended (.failed f))
    (cites : citedFailure f ≠ []) {scope : Scope} :
    ∃ command words word, Handed (s.opened id session typed).2 session (Text.trim typed) command words ∧
      word ∈ words ∧ Reported s ((Shell.perform (called s id session typed call) Shell.fullTurn
        (call.command.handler call.arguments ⟨none, piped⟩) (s.opened id session typed).2).2.conclude id session
        (.foreground scope) (.failed (.command call.command.name f))) session
        (.command call.command.name f) word := by
  have named : ∀ d ∈ Builtin.all, Clear d.name := by decide
  obtain ⟨words, handed, parsed⟩ := readGiven read
  have ⟨name, rest, _, found, _⟩ := handed
  have provided := (Begins.line stands).kept.commands.symm ▸ (Shell.soundReachable reachable).provided
  obtain ⟨d, mem, built⟩ := Dict.everyFound provided.only found
  obtain ⟨same, handler⟩ := Arguments.builtAs built
  obtain ⟨fits, typedWords⟩ := parsedFits mem built parsed
  have complains := complainsCommand call.arguments ⟨none, piped⟩ mem fits
  rw [← handler] at complains
  obtain ⟨⟨word, inside, faults⟩, printed⟩ :=
    complainsPerform complains (c := called s id session typed call) rfl ended cites
  obtain ⟨original, listed, rfl⟩ := typedWords word inside
  refine ⟨call.command, words, original, handed, listed, concludedReport reachable (fun b there => ?_)
    (fun clear => ?_) fun q mem => ?_⟩
  · exact printed b ((openedConsole reachable id session typed).symm ▸ there)
  · refine clearAppend (clearAppend (same ▸ named d mem) (by decide)) (failureClear cites fun q mem => ?_)
    rcases faultsQuoted faults mem with quoted | ⟨-, rfl⟩
    · exact clearQuoted quoted clear
    · exact clearEscape clear
  · exact (faultsQuoted faults mem).imp_right fun ⟨number, whole⟩ => ⟨_, by rw [number], whole⟩

theorem endedFailed {ending : Ending} {name : Text} (outcome : ending.outcome name = .failed e) :
    ∃ f, ending = .failed f ∧ e = .command name f := by
  unfold Ending.outcome at outcome
  split at outcome <;> cases outcome
  exact ⟨_, rfl, rfl⟩

theorem rejectsWord (reachable : Reachable s) {ended : TaskId} (before : (ended, .failed e) ∉ s.outcomes)
    (failed : (ended, .failed e) ∈ (s.resume tie id).outcomes) (cites : cited e ≠ []) :
    ∃ session typed piped command words word, s.tasks.lookup id = some (.line session typed piped) ∧
      Handed (s.opened id session typed).2 session (Text.trim typed) command words ∧ word ∈ words ∧
      Reported s (s.resume tie id) session e word := by
  obtain ⟨-, ends, -⟩ := Shell.newlyRecorded before failed
  generalize outcome : Outcome.failed e = recorded at ends
  cases ends with
  | done => cases outcome
  | refused stands read turn =>
    cases outcome
    obtain ⟨command, words, word, handed, inside, reported⟩ := refusedReport reachable stands read cites
    exact ⟨_, _, _, command, words, word, stands, handed, inside, turn ▸ reported⟩
  | @command c run ending name scope runs named place ends turn =>
    obtain ⟨f, rfl, rfl⟩ := endedFailed outcome.symm
    have under := eachReachable everyBehind reachable
    cases runs with
    | called begins read =>
      cases begins with
      | job => cases place
      | line stands =>
        obtain ⟨command, words, word, handed, inside, reported⟩ :=
          complainedReport reachable stands read ends cites
        cases named
        rw [turn, Shell.leaveCommand ends rfl, ← outcome]
        exact ⟨_, _, _, command, words, word, stands, handed, inside, reported⟩
    | program stands =>
      obtain ⟨-, ⟨span, stopped, next, rfl⟩, each⟩ := under _ (Shell.lookedUp stands)
      exact absurd (mutePerform (p := .sleep span stopped next) ⟨trivial, each.1⟩ ends) cites
    | waited stands => exact absurd (muteGoOn (under _ (Shell.lookedUp stands)).2 ends) cites

end Reports

def diceLine : Text := "roll '<x'"

theorem rejectsDice :
    let s := (fresh.execute ⟨0⟩ diceLine none).2
    let e : LineError := .command "roll" (.invalidDice "<x")
    s.isOpen ⟨0⟩ = true ∧ ∃ command words word,
      Handed (s.opened ⟨0⟩ ⟨0⟩ diceLine).2 ⟨0⟩ (Text.trim diceLine) command words ∧ word ∈ words ∧
        Reported s (s.resume .event ⟨0⟩) ⟨0⟩ e word := by
  intro s e
  have reachable : Reachable s := freshReachable.step (.execute _ _ _ _)
  have stands := executedStands freshReachable ⟨0⟩ diceLine none
  rw [freshCount] at stands
  have before : (⟨0⟩, .failed e) ∉ s.outcomes := by decide +kernel
  have failed : (⟨0⟩, .failed e) ∈ (s.resume .event ⟨0⟩).outcomes := by decide +kernel
  have cites : cited e ≠ [] := by decide
  obtain ⟨session, typed, piped, command, words, word, found, handed, inside, reported⟩ :=
    rejectsWord reachable before failed cites
  obtain ⟨rfl, rfl, rfl⟩ : session = ⟨0⟩ ∧ typed = diceLine ∧ piped = none := by
    have same := found.symm.trans stands
    simpa using same
  exact ⟨by decide +kernel, command, words, word, handed, inside, reported⟩

def numberLine : Text := "kill '<x'"

theorem numberEscapedTwice :
    let s := (fresh.execute ⟨0⟩ numberLine none).2
    let t := s.resume .event ⟨0⟩
    let terminal : Terminal := { session := ⟨0⟩, ansi := false, colored := false }
    let shown : Text := "kill: JobError: invalid job id '&lt;x' (expected N or %N)"
    (∃ command, Handed (s.opened ⟨0⟩ ⟨0⟩ numberLine).2 ⟨0⟩ (Text.trim numberLine) command ["<x"]) ∧
      t.outcome? ⟨0⟩ = some (.failed (.command "kill" (.job (.invalidId "&lt;x")))) ∧
      (t.console.buffer? ⟨0⟩).map (fun b => b.lines.map terminal.formatLine) = some [shown] ∧
      ¬ ("<x" : Text) <:+: shown := by
  intro s t terminal shown
  have known : ((s.opened ⟨0⟩ ⟨0⟩ numberLine).2.registry.command?
      ((s.opened ⟨0⟩ ⟨0⟩ numberLine).2.registry.resolve "kill").command).isSome = true := by
    decide +kernel
  obtain ⟨command, found⟩ := Option.isSome_iff_exists.mp known
  have tokenized : tokenize ((s.opened ⟨0⟩ ⟨0⟩ numberLine).2.expandLine ⟨0⟩ (Text.trim numberLine)) =
      .ok ["kill", "<x"] := by
    decide +kernel
  have bare : ((s.opened ⟨0⟩ ⟨0⟩ numberLine).2.registry.resolve "kill").arguments = [] := by decide +kernel
  refine ⟨⟨command, "kill", ["<x"], tokenized, found, ?_⟩, by decide +kernel, by decide +kernel, by decide +kernel⟩
  rw [bare]
  rfl

end ConsoleShell.Rejections
