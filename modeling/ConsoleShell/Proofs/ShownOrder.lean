import ConsoleShell.Proofs.CalledLines
import ConsoleShell.Proofs.QuotedEcho
import ConsoleShell.Proofs.SortedLines
import ConsoleShell.Proofs.TerminalText

/-! The order in which sorted lines are shown. Lines are escaped before they are sorted, so a character that
has an entity is placed by its entity: where the ampersand stands among other characters, and among
its like by the letter behind the ampersand. No entity begins another, so the order of escaped texts
is again that of their characters one by one. It is the order of the texts themselves wherever the
characters that occur stand in their own order. -/
namespace ConsoleShell.ShownOrder
open Builtin Markup CalledLines SortedLines EscapedText
open QuotedEcho (OneLine)
open Shell (Reachable)

def rank : Char → Nat
  | '&' => 1
  | '>' => 2
  | '<' => 3
  | '"' => 4
  | _ => 0

def place (c : Char) : Nat := if c ∈ special then 8 * '&'.toNat + rank c else 8 * c.toNat

def letter (c : Char) : Char := ((entity c).drop 1).headD '&'

variable {c d : Char} {a b : Text}

theorem rankSmall (c : Char) : rank c < 8 := by
  unfold rank
  split <;> decide

theorem charOrder : c < d ↔ c.toNat < d.toNat := Char.lt_def.trans UInt32.lt_iff_toNat_lt

theorem entityLetter : ∀ c ∈ special, entity c = '&' :: letter c :: (entity c).drop 2 := by
  apply eachSpecial <;> decide

theorem letterOrder : ∀ c ∈ special, ∀ d ∈ special, letter c < letter d ↔ rank c < rank d := by
  apply eachSpecial <;> apply eachSpecial <;> decide

theorem letterSame : ∀ c ∈ special, ∀ d ∈ special, letter c = letter d → c = d := by
  apply eachSpecial <;> apply eachSpecial <;> decide

theorem plainApart (plain : c ∉ special) : c.toNat ≠ '&'.toNat := by
  intro same
  cases Char.toNat_inj.mp same
  exact plain (by decide)

/- Of two characters the one that is placed first comes first when both are escaped, whatever follows. -/
theorem entityOrder (other : c ≠ d) (rest later : Text) :
    entity c ++ rest < entity d ++ later ↔ place c < place d := by
  have small := rankSmall c
  have little := rankSmall d
  unfold place
  by_cases left : c ∈ special
  · rw [entityLetter c left, if_pos left]
    by_cases right : d ∈ special
    · rw [entityLetter d right, if_pos right]
      have apart : letter c ≠ letter d := fun same => other (letterSame c left d right same)
      simp [List.cons_lt_cons_iff, apart, letterOrder c left d right]
    · have away := plainApart right
      rw [entityPlain right, if_neg right]
      have first : '&' ≠ d := fun same => away (same ▸ rfl)
      simp only [List.cons_append, List.nil_append, List.cons_lt_cons_iff, first, false_and, or_false, charOrder]
      omega
  · have away := plainApart left
    rw [entityPlain left, if_neg left]
    by_cases right : d ∈ special
    · rw [entityLetter d right, if_pos right]
      have first : c ≠ '&' := fun same => away (same ▸ rfl)
      simp only [List.cons_append, List.nil_append, List.cons_lt_cons_iff, first, false_and, or_false, charOrder]
      omega
    · rw [entityPlain right, if_neg right]
      simp only [List.cons_append, List.nil_append, List.cons_lt_cons_iff, other, false_and, or_false, charOrder]
      omega

theorem entitySame (same : entity c = entity d) : c = d := by
  have escaped : escape [c] = escape [d] := by simpa [escape] using same
  have texts := congrArg unescape escaped
  rw [unescapeEscape, unescapeEscape] at texts
  exact List.singleton_inj.mp texts

theorem placeSame : place c = place d ↔ c = d := by
  constructor
  · intro same
    by_contra other
    have first : ¬ entity c < entity d := by simpa [same] using entityOrder other [] []
    have second : ¬ entity d < entity c := by simpa [same] using entityOrder (Ne.symm other) [] []
    exact other (entitySame (List.le_antisymm (List.not_lt.mp second) (List.not_lt.mp first)))
  · exact congrArg place

theorem appendOrder (front : Text) : front ++ a < front ++ b ↔ a < b := by
  induction front with
  | nil => rfl
  | cons c rest ih => simpa [List.cons_lt_cons_iff] using ih

theorem entitySome (c : Char) : entity c ≠ [] := by
  by_cases listed : c ∈ special
  · rw [entityLetter c listed]
    exact List.cons_ne_nil _ _
  · rw [entityPlain listed]
    exact List.cons_ne_nil _ _

theorem escapeOrder : escape a < escape b ↔ a.map place < b.map place := by
  induction a generalizing b with
  | nil =>
    cases b with
    | nil => simp [escape]
    | cons d later =>
      have nonempty : escape (d :: later) ≠ [] := by simp [escapeCons, entitySome]
      obtain ⟨e, more, whole⟩ := List.exists_cons_of_ne_nil nonempty
      rw [whole]
      exact iff_of_true (List.nil_lt_cons _ _) (List.nil_lt_cons _ _)
  | cons c rest ih =>
    cases b with
    | nil => simp [escape]
    | cons d later =>
      rw [escapeCons, escapeCons, List.map_cons, List.map_cons, List.cons_lt_cons_iff]
      by_cases same : c = d
      · subst same
        rw [appendOrder, ih]
        simp
      · rw [entityOrder same]
        simp [placeSame, same]

section Lines

variable {lines : List Text} {line : Text}

theorem unlinesCons (more : lines ≠ []) : Text.unlines (line :: lines) = line ++ '\n' :: Text.unlines lines := by
  obtain ⟨next, later, rfl⟩ := List.exists_cons_of_ne_nil more
  simp [Text.unlines, Text.join, List.intercalate_cons_cons]

theorem unlinesConcat (nonempty : lines ≠ []) :
    Text.unlines (lines ++ [line]) = Text.unlines lines ++ '\n' :: line := by
  induction lines with
  | nil => contradiction
  | cons first rest ih =>
    cases rest with
    | nil => simp [Text.unlines, Text.join]
    | cons next later =>
      have more : next :: later ≠ [] := List.cons_ne_nil _ _
      rw [List.cons_append, unlinesCons (by simp), ih more, unlinesCons more, List.append_assoc, List.cons_append]

theorem fieldsUnlines (nonempty : lines ≠ []) (unbroken : ∀ line ∈ lines, '\n' ∉ line) :
    Text.fields '\n' (Text.unlines lines) = lines := by
  induction lines with
  | nil => contradiction
  | cons first rest ih =>
    obtain ⟨here, later⟩ := List.forall_mem_cons.mp unbroken
    cases rest with
    | nil => simpa [Text.unlines, Text.join] using Rendering.fieldsFree here
    | cons next more =>
      have there : next :: more ≠ [] := List.cons_ne_nil _ _
      rw [unlinesCons there, Rendering.fieldsCut here, ih there later]

/- Lines that a rendering gives back: none is broken, and none loses its end. -/
def Whole (lines : List Text) : Prop := ∀ line ∈ lines, '\n' ∉ line ∧ line.getLast? ≠ some '\r'

theorem wholeFields (nonempty : lines ≠ []) (whole : Whole lines) :
    (Text.fields '\n' (Text.unlines lines)).map (Text.dropLastIf '\r') = lines := by
  rw [fieldsUnlines nonempty fun line mem => (whole line mem).1]
  refine (List.map_congr_left fun line mem => ?_).trans (List.map_id lines)
  exact QuotedEcho.dropLastOther (whole line mem).2

theorem rawWhole (whole : Whole (lines ++ [line])) (text : line ≠ []) :
    Render.rawLines (Text.unlines (lines ++ [line])) = lines ++ [line] := by
  have last : '\n' ∉ line := (whole line (by simp)).1
  have ends : (Text.unlines (lines ++ [line])).getLast? ≠ some '\n' := by
    have behind : (Text.unlines (lines ++ [line])).getLast? = line.getLast? := by
      cases lines with
      | nil => simp [Text.unlines, Text.join]
      | cons first rest =>
        rw [unlinesConcat (List.cons_ne_nil _ _), List.getLast?_append, List.getLast?_cons]
        obtain ⟨before, c, rfl⟩ := List.eq_nil_or_concat line |>.resolve_left text
        simp
    rw [behind]
    exact fun same => last (List.mem_of_getLast? same)
  unfold Render.rawLines
  rw [QuotedEcho.dropLastOther ends, wholeFields (by simp) whole]

theorem rawBlank (n : Nat) :
    Render.rawLines (Text.unlines (List.replicate (n + 1) [])) = List.replicate (max 1 n) [] := by
  cases n with
  | zero => rfl
  | succ n =>
    have nonempty : (List.replicate (n + 1) [] : List Text) ≠ [] := by simp
    have whole : Whole (List.replicate (n + 1) []) := by
      intro line mem
      rw [List.eq_of_mem_replicate mem]
      simp
    have ended : Text.dropLastIf '\n' (Text.unlines (List.replicate (n + 1) []) ++ ['\n']) =
        Text.unlines (List.replicate (n + 1) []) := by
      simp [Text.dropLastIf, Text.dropEnd?]
    rw [List.replicate_succ', unlinesConcat nonempty]
    unfold Render.rawLines
    rw [ended, wholeFields nonempty whole]
    simp

end Lines

def InPlace (given : List Text) : Prop :=
  ∀ c ∈ given.flatten, ∀ d ∈ given.flatten, c < d → place c < place d

instance (c : Char) (a : Text) : Decidable (∀ d ∈ a, c < d → place c < place d) :=
  List.decidableBAll (fun d => c < d → place c < place d) a

instance (given : List Text) : Decidable (InPlace given) :=
  List.decidableBAll (fun c => ∀ d ∈ given.flatten, c < d → place c < place d) given.flatten

structure Ascends (given shown : List Text) : Prop where
  kept : (∃ v ∈ given, v ≠ []) → shown.Perm given
  /- Of two or more empty lines the last is taken for the end of the one before. -/
  blank : (∀ v ∈ given, v = []) → shown = List.replicate (max 1 (given.length - 1)) []
  placed : shown.Pairwise fun a b => ¬ b.map place < a.map place
  inOrder : InPlace given → shown.Pairwise fun a b => ¬ b < a

theorem placedOrder (apart : ∀ c ∈ a, ∀ d ∈ b, c < d → place c < place d) (less : a < b) :
    a.map place < b.map place := by
  induction a generalizing b with
  | nil =>
    cases b with
    | nil => simp at less
    | cons d later => exact List.nil_lt_cons _ _
  | cons c rest ih =>
    cases b with
    | nil => simp at less
    | cons d later =>
      rw [List.map_cons, List.map_cons, List.cons_lt_cons_iff]
      rcases List.cons_lt_cons_iff.mp less with first | ⟨rfl, behind⟩
      · exact .inl (apart c List.mem_cons_self d List.mem_cons_self first)
      · exact .inr ⟨rfl, ih (fun c inside d there => apart c (List.mem_cons_of_mem _ inside) d
          (List.mem_cons_of_mem _ there)) behind⟩

theorem byTextLeast (before : (comparison false a b).isLE) : ¬ b < a := by
  intro less
  have behind : comparison false a b = .gt := by
    have other : a ≠ b := fun same => List.lt_irrefl b (same ▸ less)
    exact (if_neg (List.lt_asymm less)).trans (if_neg other)
  simp [behind] at before

theorem sortedEscaped (given : List Text) :
    ∃ shown : List Text, sortLines false false false (given.map escape) = shown.map escape ∧ shown.Perm given ∧
      shown.Pairwise fun a b => ¬ b.map place < a.map place := by
  have back : (given.map escape).map unescape = given := by
    rw [List.map_map]
    exact (List.map_congr_left fun v _ => unescapeEscape v).trans (List.map_id given)
  have kept := sortedKept false (given.map escape)
  have ascends := sortedAscends false (given.map escape)
  generalize sortLines false false false (given.map escape) = sorted at kept ascends
  have whole : sorted = (sorted.map unescape).map escape := by
    rw [List.map_map]
    refine (List.map_id sorted).symm.trans (List.map_congr_left fun line mem => ?_)
    obtain ⟨v, -, rfl⟩ := List.mem_map.mp (kept.mem_iff.mp mem)
    exact congrArg escape (unescapeEscape v).symm
  refine ⟨sorted.map unescape, whole, back ▸ kept.map unescape, ?_⟩
  rw [whole, List.pairwise_map] at ascends
  exact ascends.imp fun before less => byTextLeast before (escapeOrder.mpr less)

theorem lastText {before : List Text} {last : Text}
    (placed : (before ++ [last]).Pairwise fun a b => ¬ b.map place < a.map place)
    (text : ∃ v ∈ before ++ [last], v ≠ []) : last ≠ [] := by
  rintro rfl
  obtain ⟨v, mem, nonempty⟩ := text
  have inside : v ∈ before := (List.mem_append.mp mem).resolve_right (by simpa using nonempty)
  have least := (List.pairwise_append.mp placed).2.2 v inside [] (by simp)
  obtain ⟨c, rest, rfl⟩ := List.exists_cons_of_ne_nil nonempty
  exact least (List.nil_lt_cons _ _)

section Terminals

variable {terminal : Terminal} (plain : terminal.ansi = false)

include plain

theorem formatEach (source : Text) : (Render.text .output source).map terminal.formatLine =
    (Render.rawLines source).map fun raw => unescape (Render.line raw).plain := by
  unfold Render.text
  rw [List.map_map]
  refine List.map_congr_left fun raw _ => ?_
  exact if_neg (by simp [plain])

theorem formatText {before : List Text} {last : Text} (oneLine : ∀ v ∈ before ++ [last], OneLine v)
    (text : last ≠ []) :
    (Render.text .output (Text.unlines ((before ++ [last]).map escape))).map terminal.formatLine =
      before ++ [last] := by
  have whole : Whole (before.map escape ++ [escape last]) := by
    intro line mem
    rw [← List.map_singleton, ← List.map_append] at mem
    obtain ⟨v, inside, rfl⟩ := List.mem_map.mp mem
    have one := oneLine v inside
    exact ⟨escapeAbsent Rendering.lineFeedForeign one.unbroken,
      QuotedEcho.escapeEnding Rendering.carriageForeign one.ending⟩
  have long : escape last ≠ [] := fun empty => text (by rw [← unescapeEscape last, empty]; rfl)
  have raw := rawWhole whole long
  rw [← List.map_singleton, ← List.map_append] at raw
  unfold Render.text
  rw [raw, List.map_map, List.map_map]
  refine (List.map_congr_left fun v mem => ?_).trans (List.map_id _)
  exact QuotedEcho.formatQuoted (oneLine v mem) plain

theorem formatBlank (n : Nat) :
    (Render.text .output (Text.unlines (List.replicate (n + 1) []))).map terminal.formatLine =
      List.replicate (max 1 n) [] := by
  rw [formatEach plain, rawBlank, List.map_replicate]
  rfl

theorem sortedShown {given : List Text} (nonempty : given ≠ []) (oneLine : ∀ v ∈ given, OneLine v) :
    Ascends given ((Render.text .output (Text.unlines
      (sortLines false false false (given.map escape)))).map terminal.formatLine) := by
  obtain ⟨shown, sorted, perm, placed⟩ := sortedEscaped given
  rw [sorted]
  by_cases text : ∃ v ∈ given, v ≠ []
  · have there : ∃ v ∈ shown, v ≠ [] := by
      obtain ⟨v, mem, long⟩ := text
      exact ⟨v, perm.mem_iff.mpr mem, long⟩
    obtain rfl | ⟨before, last, rfl⟩ := List.eq_nil_or_concat' shown
    · exact absurd perm.symm.eq_nil nonempty
    rw [formatText plain (fun v mem => oneLine v (perm.mem_iff.mp mem)) (lastText placed there)]
    refine {
      kept := fun _ => perm
      blank := fun blank => ?_
      placed
      inOrder := fun inPlace => ?_ }
    · obtain ⟨v, mem, long⟩ := text
      exact absurd (blank v mem) long
    · refine placed.imp_of_mem fun inside there least less => least (placedOrder ?_ less)
      intro c first d second
      exact inPlace c (List.mem_flatten_of_mem (perm.mem_iff.mp there) first) d
        (List.mem_flatten_of_mem (perm.mem_iff.mp inside) second)
  · have blank : ∀ v ∈ given, v = [] := by simpa using text
    obtain ⟨n, count⟩ := Nat.exists_eq_add_one_of_ne_zero (mt List.length_eq_zero_iff.mp nonempty)
    have empty : shown = List.replicate (n + 1) [] :=
      List.eq_replicate_iff.mpr ⟨perm.length_eq.trans count, fun v mem => blank v (perm.mem_iff.mp mem)⟩
    rw [empty, List.map_replicate]
    have unescaped : escape [] = [] := rfl
    rw [unescaped, formatBlank plain]
    exact {
      kept := fun nonempty => absurd nonempty text
      blank := fun _ => by rw [count]; rfl
      placed := List.pairwise_replicate.mpr (.inr (List.lt_irrefl _))
      inOrder := fun _ => List.pairwise_replicate.mpr (.inr (List.lt_irrefl _)) }

end Terminals

structure Plainly (call : Call) : Prop where
  sort : call.command.name = "sort"
  numeric : call.arguments.isOn "numeric" = false
  reverse : call.arguments.isOn "reverse" = false
  unique : call.arguments.isOn "unique" = false

def given (call : Call) (piped : Option (List Text)) : List Text :=
  piped.getD (call.arguments.positionals.map unescape)

variable {s : Shell} {task : TaskId} {session : SessionId} {typed : Text} {piped : Option (List Text)}
  {call : Call}

theorem sortProgram (reachable : Reachable s) (calls : Calls s task session typed piped call)
    (plainly : Plainly call) :
    call.command.handler call.arguments ⟨none, piped⟩ =
      if given call piped = [] then .finish
      else .say (Text.unlines (sortLines false false false ((given call piped).map escape))) .finish := by
  have handler := calls.handler reachable (d := Builtin.sort) (by simp [Builtin.all]) plainly.sort
  have escaped : (call.arguments.positionals.map unescape).map escape = call.arguments.positionals := by
    rw [List.map_map]
    refine (List.map_congr_left fun word mem => ?_).trans (List.map_id _)
    obtain ⟨original, rfl⟩ := TerminalText.inertEscaped ((calls.inert reachable).1 word mem)
    exact congrArg escape (unescapeEscape original)
  have sorted (lines : List Text) : (if (sortLines false false false (lines.map escape)).isEmpty then Program.finish
      else .say (Text.unlines (sortLines false false false (lines.map escape))) .finish) =
      if lines = [] then .finish
      else .say (Text.unlines (sortLines false false false (lines.map escape))) .finish := by
    have length := (sortedKept false (lines.map escape)).length_eq
    rw [List.length_map] at length
    refine if_congr ?_ rfl rfl
    rw [List.isEmpty_iff, ← List.length_eq_zero_iff, length, List.length_eq_zero_iff]
  rw [handler]
  show runSort call.arguments ⟨none, piped⟩ = _
  unfold runSort
  dsimp only
  rw [plainly.numeric, plainly.reverse, plainly.unique]
  cases piped with
  | none =>
    have here := sorted (call.arguments.positionals.map unescape)
    rw [escaped] at here
    rw [given, Option.getD_none, escaped]
    exact here
  | some lines => exact sorted lines

theorem sortNothing (reachable : Reachable s) (calls : Calls s task session typed piped call)
    (plainly : Plainly call) (empty : given call piped = []) (tie : Shell.Tie) :
    (s.resume tie task).outcome? task = some .ok ∧ (s.resume tie task).console = s.console := by
  have program := sortProgram reachable calls plainly
  rw [if_pos empty] at program
  have run := performFinish (called s task session typed call) Shell.fullTurn (s.opened task session typed).2
  rw [← program] at run
  obtain ⟨turned, console, -⟩ := calls.finishes tie run
  refine ⟨?_, console.trans (openedConsole reachable task session typed)⟩
  rw [turned]
  exact calls.recorded reachable calls.begins.kept.outcomes .ok

theorem sortSome (reachable : Reachable s) (isOpen : s.isOpen session = true)
    (calls : Calls s task session typed piped call) (plainly : Plainly call) (nonempty : given call piped ≠ [])
    (tie : Shell.Tie) :
    (s.resume tie task).outcome? task = some .ok ∧ ∃ b, s.console.buffer? session = some b ∧
      (s.resume tie task).console.buffer? session = some ⟨b.groups ++ [⟨⟨b.lastId + 1⟩, .output,
        Render.text .output (Text.unlines (sortLines false false false ((given call piped).map escape)))⟩],
        b.lastId + 1⟩ := by
  have program := sortProgram reachable calls plainly
  rw [if_neg nonempty] at program
  generalize Text.unlines (sortLines false false false ((given call piped).map escape)) = text at program ⊢
  have run := performSay (called s task session typed call) Shell.fullTurn text (s.opened task session typed).2
  rw [← program] at run
  obtain ⟨turned, console, -⟩ := calls.finishes tie run
  obtain ⟨b, found⟩ := Option.isSome_iff_exists.mp ((Shell.soundReachable reachable).buffers session isOpen)
  have printed := QuotedEcho.printedBuffer found .output text
  rw [← openedConsole reachable task session typed] at printed
  refine ⟨?_, b, found, ?_⟩
  · have silent := Shell.keptPrint (s.opened task session typed).2 (called s task session typed call) .output text
    rw [turned]
    exact calls.recorded reachable (silent.outcomes.trans calls.begins.kept.outcomes) .ok
  · rw [console]
    exact printed

structure Sorted (before after : Shell) (task : TaskId) (session : SessionId) (given : List Text) : Prop where
  done : after.outcome? task = some .ok
  silent : given = [] → after.console = before.console
  shown : given ≠ [] → ∃ b g, before.console.buffer? session = some b ∧
    after.console.buffer? session = some ⟨b.groups ++ [g], b.lastId + 1⟩ ∧ g.kind = .output ∧
    ∀ terminal : Terminal, terminal.ansi = false → Ascends given (g.lines.map terminal.formatLine)

/- Whatever is sorted without flags, piped or typed, is shown in the order of the places. -/
theorem showsPlaced (reachable : Reachable s) (isOpen : s.isOpen session = true)
    (calls : Calls s task session typed piped call) (plainly : Plainly call)
    (oneLine : ∀ v ∈ given call piped, OneLine v) (tie : Shell.Tie) :
    Sorted s (s.resume tie task) task session (given call piped) := by
  by_cases none : given call piped = []
  · obtain ⟨done, console⟩ := sortNothing reachable calls plainly none tie
    exact ⟨done, fun _ => console, fun nonempty => absurd none nonempty⟩
  · obtain ⟨done, b, found, printed⟩ := sortSome reachable isOpen calls plainly none tie
    refine ⟨done, fun empty => absurd empty none, fun _ => ?_⟩
    refine ⟨b, _, found, printed, rfl, fun terminal plain => ?_⟩
    exact sortedShown plain none oneLine

def outlined (call : Call) : Text × Bool × List Text :=
  (call.command.name, (["numeric", "reverse", "unique"] : List Text).any call.arguments.isOn,
    call.arguments.positionals)

theorem outlinedPlainly {words : List Text} (same : outlined call = ("sort".toList, false, words)) :
    Plainly call ∧ call.arguments.positionals = words := by
  simp only [outlined, Prod.mk.injEq, List.any_cons, List.any_nil, Bool.or_eq_false_iff] at same
  exact ⟨⟨same.1, same.2.1.1, same.2.1.2.1, same.2.1.2.2.1⟩, same.2.2⟩

def quotedLine : Text := "sort 'b>' \"b'\" a ''"

theorem showsPlacedQuoted :
    let s := (fresh.execute ⟨0⟩ quotedLine none).2
    let lines : List Text := ["b>", "b'", "a", ""]
    ∃ call, Calls s ⟨0⟩ ⟨0⟩ quotedLine none call ∧ Plainly call ∧ given call none = lines ∧
      InPlace lines ∧ Sorted s (s.resume .event ⟨0⟩) ⟨0⟩ ⟨0⟩ lines := by
  intro s lines
  have seen : ((s.opened ⟨0⟩ ⟨0⟩ quotedLine).2.readCall ⟨0⟩ (Text.trim quotedLine)).map
      (Option.map outlined) = .ok (some ("sort", false, ["b&gt;", "b&#39;", "a", ""])) := by
    decide +kernel
  obtain ⟨call, read, same⟩ := callSeen outlined seen
  obtain ⟨plainly, words⟩ := outlinedPlainly same
  have stands := executedStands freshReachable ⟨0⟩ quotedLine none
  rw [freshCount] at stands
  have calls : Calls s ⟨0⟩ ⟨0⟩ quotedLine none call := ⟨stands, by decide +kernel, by decide +kernel, read⟩
  have same : given call none = lines := by
    rw [given, words]
    decide
  have oneLine : ∀ v ∈ given call none, OneLine v := by
    rw [same]
    have free : ∀ v ∈ lines, Render.escapeCharacter ∉ v ∧ '\n' ∉ v ∧ v.getLast? ≠ some '\r' := by decide
    exact fun v mem => ⟨(free v mem).1, (free v mem).2.1, (free v mem).2.2⟩
  have reachable : Reachable s := freshReachable.step (.execute _ _ _ _)
  have sorted := showsPlaced reachable (by decide +kernel) calls plainly oneLine .event
  rw [same] at sorted
  exact ⟨call, calls, plainly, same, by decide +kernel, sorted⟩

theorem entityMisplaced :
    let s := (fresh.execute ⟨0⟩ "sort" (some ["<", "0"])).2
    let terminal : Terminal := { session := ⟨0⟩, ansi := false, colored := false }
    ∃ call b, Calls s ⟨0⟩ ⟨0⟩ "sort" (some ["<", "0"]) call ∧ Plainly call ∧
      (s.resume .event ⟨0⟩).console.buffer? ⟨0⟩ = some b ∧
      b.lines.map terminal.formatLine = (["<", "0"] : List Text) ∧ ("0" : Text) < ("<" : Text) := by
  intro s terminal
  have seen : ((s.opened ⟨0⟩ ⟨0⟩ "sort").2.readCall ⟨0⟩ (Text.trim "sort")).map (Option.map outlined) =
      .ok (some ("sort", false, [])) := by
    decide +kernel
  obtain ⟨call, read, same⟩ := callSeen outlined seen
  have plainly := (outlinedPlainly same).1
  have stands := executedStands freshReachable ⟨0⟩ "sort" (some ["<", "0"])
  rw [freshCount] at stands
  have calls : Calls s ⟨0⟩ ⟨0⟩ "sort" (some ["<", "0"]) call :=
    ⟨stands, by decide +kernel, by decide +kernel, read⟩
  have reachable : Reachable s := freshReachable.step (.execute _ _ _ _)
  have nonempty : given call (some ["<", "0"]) ≠ [] := List.cons_ne_nil _ _
  obtain ⟨-, b, found, printed⟩ := sortSome reachable (by decide +kernel) calls plainly nonempty .event
  have placed : sortLines false false false (["&lt;", "0"] : List Text) = ["&lt;", "0"] :=
    (sortedKept false _).eq_of_pairwise (fun a b _ _ => comparisonAntisymm) (sortedAscends false _) (by decide +kernel)
  have escaped : (given call (some ["<", "0"])).map escape = (["&lt;", "0"] : List Text) := rfl
  have empty : s.console.buffer? ⟨0⟩ = some .empty := by decide +kernel
  cases empty.symm.trans found
  rw [escaped, placed] at printed
  exact ⟨call, _, calls, plainly, printed, by decide +kernel, by decide⟩

end ConsoleShell.ShownOrder
