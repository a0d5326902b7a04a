import ConsoleShell.Builtin.All
import ConsoleShell.Proofs.Arguments
import ConsoleShell.Proofs.Rendering
import ConsoleShell.Proofs.SortedLines

/-! What the commands that every shell has may print. A program is tidy if every text that it prints
is inert, whatever it is told on its way, and if it leaves nothing behind that runs when it is asked
to stop. Every command is tidy for arguments as the reading of flags hands them over. -/
namespace ConsoleShell.Printing
open Markup Rendering Arguments

def GroupsHarmless (groups : List Group) : Prop :=
  ∀ g ∈ groups, ∀ l ∈ g.lines, ∀ s ∈ l.segments, Harmless s

def Tidy : Program → Prop
  | .finish | .fail _ | .crash => True
  | .print _ text next => Inert text ∧ ∀ group, Tidy (next group)
  | .update _ text next => Inert text ∧ ∀ there, Tidy (next there)
  | .delete _ next => ∀ there, Tidy (next there)
  | .clear next => Tidy next
  | .replay groups next => GroupsHarmless groups ∧ Tidy next
  | .inspect next => ∀ view, (∀ job ∈ view.jobs, GroupsHarmless job.output) → Tidy (next view)
  | .change _ next => Tidy next
  | .kill _ next => ∀ outcome, Tidy (next outcome)
  | .roll _ next => ∀ n, Tidy (next n)
  | .onCancel _ _ => False
  | .sleep _ stopped next => Tidy stopped ∧ Tidy next
  | .readLine next => ∀ line, Tidy (next line)
  | .confirm message next => Inert message ∧ ∀ yes, Tidy (next yes)
  | .awaitJob _ next => ∀ job, GroupsHarmless job.output → Tidy (next job)
  | .awaitCancel next => Tidy next

theorem tidySay {text : Text} {next : Program} (inert : Inert text) (tidy : Tidy next) :
    Tidy (.say text next) := ⟨inert, fun _ => tidy⟩

theorem tidyOrFail {α : Type} {result : Except Failure α} {next : α → Program}
    (tidy : ∀ a, Tidy (next a)) : Tidy (.orFail result next) := by
  cases result with
  | error failure => trivial
  | ok a => exact tidy a

theorem tidyForEach {α : Type} {items : List α} {body : α → Program → Program} {last : Program}
    (each : ∀ item next, Tidy next → Tidy (body item next)) (tidy : Tidy last) :
    Tidy (.forEach items body last) := by
  unfold Program.forEach
  induction items with
  | nil => exact tidy
  | cons item rest ih => exact each item _ ih

@[simp] theorem inertNat (n : Nat) : Inert (Text.ofNat n) := by
  apply inertPlain
  intro c mem listed
  have digit := Nat.isDigit_of_mem_toDigits (by decide) (by decide) mem
  have noDigit : ∀ c ∈ special, c.isDigit = false := by apply eachSpecial <;> decide
  rw [noDigit c listed] at digit
  contradiction

@[simp] theorem inertInt (n : Int) : Inert (Text.ofInt n) := by
  unfold Text.ofInt
  split
  · exact inertAppend (a := ['-']) (by decide) (inertNat _)
  · exact inertNat _

@[simp] theorem inertReplicate {c : Char} (plain : c ∉ ['<', '>', '"', '\'', '&']) (n : Nat) :
    Inert (List.replicate n c) := by
  apply inertPlain
  intro d mem
  rw [List.eq_of_mem_replicate mem]
  simpa [special] using plain

@[simp] theorem inertPad {text : Text} (h : Inert text) (width : Nat) :
    Inert (Text.padLeft width text) :=
  inertAppend (inertReplicate (by decide) _) h

theorem inertLines {lines : List Text} (each : ∀ line ∈ lines, Inert line) :
    Inert (Text.unlines lines) := inertJoin (by decide) each

@[simp] theorem inertColor (color : Color) : Inert color.code := by cases color <;> decide

@[simp] theorem inertStyles : Inert Sgr.dim ∧ Inert Sgr.bold ∧ Inert Sgr.yellow ∧ Inert Sgr.cyan := by
  decide

@[simp] theorem inertColumns (rows : List (Text × Text)) {style : Text} (inert : Inert style) :
    Inert (Builtin.columns rows style) := by
  refine inertLines fun line mem => ?_
  obtain ⟨⟨key, value⟩, -, rfl⟩ := List.mem_map.mp mem
  simp [inert]

theorem inertAssignments (rows : List (Text × Text)) : Inert (Builtin.assignments rows) := by
  refine inertLines fun line mem => ?_
  obtain ⟨⟨name, value⟩, -, rfl⟩ := List.mem_map.mp mem
  simp

@[simp] theorem inertStatus (status : JobStatus) : Inert status.label := by
  cases status <;> decide

@[simp] theorem inertJob (now : Nat) (job : JobSnapshot) :
    Inert (Builtin.describeJob now job) := by
  unfold Builtin.describeJob
  split <;> split <;> simp [JobId.display]

def TidyHandler (handler : Handler) : Prop :=
  ∀ arguments caller, ArgumentsInert arguments → Tidy (handler arguments caller)

theorem tidyAlias : TidyHandler Builtin.runAlias := by
  intro arguments caller inert
  have line (name target : Text) : Inert (Builtin.aliasLine name target) := inertEscape _
  unfold Builtin.runAlias
  split
  · intro view _
    dsimp only
    split
    · trivial
    · refine tidySay (inertLines fun shown mem => ?_) trivial
      obtain ⟨⟨name, target⟩, -, rfl⟩ := List.mem_map.mp mem
      exact line name target
  · refine tidyForEach (fun argument next tidy => ?_) trivial
    unfold Builtin.aliasArgument
    dsimp only
    split
    · split
      · trivial
      · split
        · trivial
        · exact tidy
    · intro view _
      dsimp only
      split
      · exact tidySay (line _ _) tidy
      · trivial

theorem tidyUnalias : TidyHandler Builtin.runUnalias := by
  intro arguments caller inert
  unfold Builtin.runUnalias
  split
  · trivial
  · refine tidyForEach (fun argument next tidy view _ => ?_) trivial
    dsimp only
    split
    · exact tidy
    · trivial

theorem tidyConfirm : TidyHandler Builtin.runConfirm := by
  intro arguments caller inert
  refine ⟨?_, fun yes => tidySay ?_ trivial⟩
  · split
    · decide
    · exact inertJoin (by decide) inert.1
  · split <;> decide

theorem tidyRead : TidyHandler Builtin.runRead := by
  intro arguments caller inert
  refine tidyOrFail fun _ => ?_
  split
  · rename_i prompt given
    exact tidySay (textInert inert given) fun line => trivial
  · exact fun line => trivial

theorem tidyEcho : TidyHandler Builtin.runEcho := by
  intro arguments caller inert
  have words := inertJoin (by decide : Inert [' ']) inert.1
  unfold Builtin.runEcho
  dsimp only
  cases arguments.text? "color" with
  | none => exact ⟨words, fun _ => trivial⟩
  | some name => exact tidyOrFail fun color => ⟨by simp [words], fun _ => trivial⟩

theorem tidyListing (table : Dict Text Text) : Tidy (Builtin.listing table) := by
  unfold Builtin.listing
  split
  · trivial
  · exact tidySay (inertAssignments _) trivial

theorem tidyExport : TidyHandler Builtin.runExport := by
  intro arguments caller inert
  unfold Builtin.runExport
  split
  · exact fun view _ => tidyListing _
  · refine tidyForEach (fun name next tidy => tidyOrFail fun _ view _ => ?_) trivial
    dsimp only
    split
    · exact tidy
    · trivial

theorem tidyUnset : TidyHandler Builtin.runUnset := by
  intro arguments caller inert
  exact tidyForEach (fun name next tidy => tidyOrFail fun _ => tidy) trivial

theorem tidyGodmode : TidyHandler Builtin.runGodmode := by
  intro arguments caller inert
  have switch (on : Bool) : Tidy (Builtin.switchGodMode on) := by
    unfold Builtin.switchGodMode
    split <;> exact tidySay (by decide) trivial
  unfold Builtin.runGodmode
  split
  · exact fun view _ => switch _
  · split
    · exact switch true
    · split
      · exact switch false
      · trivial

theorem inertCommand (c : Command Unit) : Inert (Builtin.describeCommand c) := by
  unfold Builtin.describeCommand
  dsimp only
  split <;> split <;> simp

theorem tidyHelp : TidyHandler Builtin.runHelp := by
  intro arguments caller inert view _
  dsimp only
  split
  · exact tidySay (by simp) trivial
  · split
    · exact tidySay (inertCommand _) trivial
    · trivial

theorem tidyHistory : TidyHandler Builtin.runHistory := by
  intro arguments caller inert
  unfold Builtin.runHistory
  split
  · trivial
  · refine fun view _ => tidySay (inertLines fun line mem => ?_) trivial
    obtain ⟨⟨entered, i⟩, -, rfl⟩ := List.mem_map.mp mem
    simp

theorem tidyJobs : TidyHandler Builtin.runJobs := by
  intro arguments caller inert view _
  dsimp only
  split
  · exact tidySay (by simp) trivial
  · split
    · exact tidySay (by decide) trivial
    · refine tidySay (inertLines fun line mem => ?_) trivial
      obtain ⟨job, -, rfl⟩ := List.mem_map.mp mem
      exact inertJob _ _

theorem tidyFg : TidyHandler Builtin.runFg := by
  intro arguments caller inert
  exact tidyOrFail fun id job harmless =>
    ⟨harmless, fun view _ => tidySay (inertJob _ _) trivial⟩

theorem tidyKill : TidyHandler Builtin.runKill := by
  intro arguments caller inert
  refine tidyOrFail fun id outcome => ?_
  dsimp only
  split
  · exact tidySay (by simp [JobId.display]) trivial
  · exact tidySay (by simp [JobId.display]) trivial
  · trivial

theorem tidySorted {given : List Text} (inert : ∀ line ∈ given, Inert line)
    (numeric reverse unique : Bool) :
    let lines := Builtin.sortLines numeric reverse unique given
    Tidy (if lines.isEmpty then .finish else .say (Text.unlines lines) .finish) := by
  dsimp only
  split
  · trivial
  · exact tidySay (inertLines fun line mem => inert line (SortedLines.sortedMember.mp mem)) trivial

theorem tidySort : TidyHandler Builtin.runSort := by
  intro arguments caller inert
  refine tidySorted (fun line mem => ?_) _ _ _
  split at mem
  · obtain ⟨piped, -, rfl⟩ := List.mem_map.mp mem
    exact inertEscape piped
  · exact inert.1 line mem

theorem tidyThrow (sides count : Nat) (rolls : List Nat) :
    Tidy (Builtin.throwDice sides count rolls) := by
  induction count generalizing rolls with
  | zero =>
    have shown : Inert (Text.join [',', ' '] (rolls.map Text.ofNat)) := by
      refine inertJoin (by decide) fun roll mem => ?_
      obtain ⟨n, -, rfl⟩ := List.mem_map.mp mem
      exact inertNat n
    exact tidySay (by simp [shown]) trivial
  | succ count ih => exact fun n => ih _

theorem tidyRoll : TidyHandler Builtin.runRoll := by
  intro arguments caller inert
  exact tidyOrFail fun dice => tidyThrow _ _ _

theorem tidySleep : TidyHandler Builtin.runSleep := by
  intro arguments caller inert
  unfold Builtin.runSleep
  dsimp only
  split
  · trivial
  · split
    · trivial
    · exact ⟨trivial, trivial⟩

@[simp] theorem inertBar (done total : Nat) : Inert (Builtin.Progress.bar done total) := by
  simp [Builtin.Progress.bar]

theorem tidyWalk (group : GroupId) (delay : Duration) (total left : Nat) :
    Tidy (Builtin.Progress.walk group delay total left) := by
  induction left with
  | zero => exact ⟨by simp, fun _ => trivial⟩
  | succ left ih =>
    exact ⟨⟨by simp [Builtin.Progress.stopped], fun _ => trivial⟩, by simp, fun _ => ih⟩

theorem tidyProgress : TidyHandler Builtin.runProgress := by
  intro arguments caller inert
  unfold Builtin.runProgress
  dsimp only
  split
  · trivial
  · split
    · trivial
    · split
      · trivial
      · exact ⟨inertBar _ _, fun group => tidyWalk _ _ _ _⟩

theorem builtinTidy {d : Declaration} (mem : d ∈ Builtin.all) : TidyHandler d.handler := by
  simp only [Builtin.all, List.mem_cons, List.not_mem_nil, or_false] at mem
  rcases mem with rfl | rfl | rfl | rfl | rfl | rfl | rfl | rfl | rfl | rfl | rfl | rfl | rfl |
    rfl | rfl | rfl | rfl | rfl | rfl | rfl | rfl
  · exact tidyAlias
  · exact tidyUnalias
  · exact fun _ _ _ => trivial
  · exact tidyConfirm
  · exact tidyEcho
  · exact fun _ _ _ _ _ => tidyListing _
  · exact tidyExport
  · exact fun _ _ _ _ _ => tidyListing _
  · exact tidyUnset
  · exact fun _ _ _ => trivial
  · exact tidyGodmode
  · exact tidyHelp
  · exact tidyHistory
  · exact tidyJobs
  · exact tidyFg
  · exact tidyKill
  · exact tidyProgress
  · exact tidyRead
  · exact tidyRoll
  · exact tidySleep
  · exact tidySort

theorem calledTidy {d : Declaration} {c : Command Handler} {words : List Text} {a : Arguments}
    (mem : d ∈ Builtin.all) (built : Command.ofDeclaration d = .ok c)
    (read : c.parse words = .ok a) (caller : Caller) : Tidy (c.handler a caller) := by
  rw [(builtAs built).2]
  exact builtinTidy mem a caller (parseInert built read)

end ConsoleShell.Printing
