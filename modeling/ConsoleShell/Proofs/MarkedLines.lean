import ConsoleShell.Proofs.CutLines
import ConsoleShell.Proofs.Offstage
import ConsoleShell.Proofs.QuotedEcho
import Mathlib.Data.List.TakeWhile

/-! Lines with an ampersand behind them. A line that runs in the background when it is so marked is read as
the same command as without the mark, whether it is typed or handed in as it is: blanks before a line
mean nothing, and the mark makes no assignment of it. -/
namespace ConsoleShell.MarkedLines
open WordGrammar (Blank)
open CutLines (gapBefore blankIff)
open Variable (takeName? pieces)

def mark : Text := " &"

variable {c : Char} {gap line : Text}

theorem blankApart (blank : isBlank c = true) (visible : Char) (seen : isBlank visible = false) :
    c ≠ visible := by
  rintro rfl
  exact absurd blank (Bool.eq_false_iff.mp seen)

theorem blankFirst (blank : isBlank c = true) (line : Text) :
    Text.trimEnd (c :: line) = if Text.trimEnd line = [] then [] else c :: Text.trimEnd line := by
  unfold Text.trimEnd
  rw [List.reverse_cons, List.dropWhile_append]
  split
  · rename_i empty
    simp [blank, List.isEmpty_iff.mp empty]
  · rename_i words
    have words : line.reverse.dropWhile isBlank ≠ [] := fun bare => words (List.isEmpty_iff.mpr bare)
    simp [words]

theorem ampersandFirst (blank : isBlank c = true) (line : Text) :
    Text.dropEnd? ['&'] (c :: line) = (Text.dropEnd? ['&'] line).map (c :: ·) := by
  have apart := blankApart blank '&' rfl
  rcases List.eq_nil_or_concat line with rfl | ⟨before, last, rfl⟩
  · simp [Text.dropEnd?, List.isSuffixOf, apart.symm]
  · by_cases same : '&' = last <;> simp [Text.dropEnd?, List.isSuffixOf, same]

theorem doubledFirst (blank : isBlank c = true) (body : Text) :
    ['&'].isSuffixOf (c :: body) = ['&'].isSuffixOf body := by
  have apart := blankApart blank '&' rfl
  rcases List.eq_nil_or_concat body with rfl | ⟨before, last, rfl⟩
  · simp [List.isSuffixOf, List.isPrefixOf, apart.symm]
  · simp [List.isSuffixOf, List.isPrefixOf]

theorem openFirst (blank : isBlank c = true) (body : Text) :
    Background.leavesOpen none (c :: body) = Background.leavesOpen none body := by
  obtain ⟨noBackslash, noQuote⟩ := WordGrammar.blankVisible blank
  simp [Background.leavesOpen, noBackslash, noQuote]

theorem commandFirst (blank : isBlank c = true) (line : Text) :
    Background.command? (c :: line) = (Background.command? line).map (c :: ·) := by
  unfold Background.command?
  rw [blankFirst blank]
  split
  · rename_i empty
    rw [empty]
    rfl
  · rw [ampersandFirst blank]
    cases Text.dropEnd? ['&'] (Text.trimEnd line) with
    | none => rfl
    | some body =>
      have stray := WordGrammar.strayPlain (WordGrammar.blankVisible blank).1 body
      unfold WordGrammar.Stray at stray
      simp only [Option.map_some, Option.bind_eq_bind, Option.bind_some, doubledFirst blank,
        openFirst blank, decide_eq_decide.mpr stray, blankFirst blank]
      split
      · rfl
      · by_cases empty : Text.trimEnd body = [] <;> simp [empty]

theorem commandBehind (blank : Blank gap) (line : Text) :
    Background.command? (gap ++ line) = (Background.command? line).map (gap ++ ·) := by
  induction gap with
  | nil => simp
  | cons c gap ih =>
    obtain ⟨first, later⟩ := List.forall_mem_cons.mp blank
    rw [List.cons_append, commandFirst first, ih later, Option.map_map]
    rfl

theorem piecesFirst (blank : isBlank c = true) (line : Text) :
    pieces (c :: line) = .literal c :: pieces line :=
  Variable.piecesLiteral (blankApart blank '$' rfl) fun backslash =>
    absurd backslash (WordGrammar.blankVisible blank).1

theorem expandBehind (blank : Blank gap) (v : Variables) (line : Text) :
    v.expandLine (gap ++ line) = gap ++ v.expandLine line := by
  induction gap with
  | nil => rfl
  | cons c gap ih =>
    obtain ⟨first, later⟩ := List.forall_mem_cons.mp blank
    rw [List.cons_append, List.cons_append, ← ih later, Expansion.expandWritten, Expansion.expandWritten,
      piecesFirst first]
    rfl

theorem readBehind (blank : Blank gap) (s : Shell) (session : SessionId) (line : Text) :
    s.readCall session (gap ++ line) = s.readCall session line := by
  have words : tokenize (s.expandLine session (gap ++ line)) = tokenize (s.expandLine session line) := by
    unfold Shell.expandLine
    cases s.sessions.get? session with
    | none => exact WordGrammar.scanGap blank line
    | some data =>
      dsimp only
      rw [expandBehind blank]
      exact WordGrammar.scanGap blank _
  unfold Shell.readCall
  rw [words]

theorem endMarked (line : Text) : Text.trimEnd (line ++ mark) = line ++ mark := by
  have whole : line ++ mark = (line ++ [' ']) ++ ['&'] := by simp [mark]
  rw [whole]
  exact QuotedEcho.trimEndVisible _ rfl

theorem markedTrimmed (marked : Background.command? (line ++ mark) = some line) :
    line ≠ [] ∧ Text.trimEnd line = line := by
  obtain ⟨body, marks, same⟩ := CutLines.commandIff.mp marked
  have whole : (line ++ [' ']) ++ ['&'] = body ++ ['&'] := by
    rw [← marks.last, endMarked]
    simp [mark]
  obtain rfl : line ++ [' '] = body := List.append_cancel_right whole
  have blank : Text.trimEnd (line ++ [' ']) = Text.trimEnd line := by
    simp [Text.trimEnd, isBlank]
  have words := CutLines.visibleIff.mpr marks.words
  rw [same] at words
  exact ⟨List.isEmpty_eq_false_iff.mp words, blank.symm.trans same⟩

structure Markable (line : Text) : Prop where
  words : Text.trim line ≠ []
  start : Text.trimStart (Text.trim line) = Text.trim line
  gap : ∃ gap, Blank gap ∧ line = gap ++ Text.trim line
  typed : Text.trim (line ++ mark) = Text.trim line ++ mark
  command : Background.command? (Text.trim line ++ mark) = some (Text.trim line)

theorem startMarked (words : Text.trimStart line ≠ []) :
    Text.trimStart (line ++ mark) = Text.trimStart line ++ mark := by
  unfold Text.trimStart at words ⊢
  rw [List.dropWhile_append, if_neg fun bare => words (List.isEmpty_iff.mp bare)]

theorem lastVisible {before : Text} {last : Char} (ends : Text.trimEnd (before ++ [last]) = before ++ [last]) :
    isBlank last = false := by
  have visible := List.rdropWhile_eq_self_iff.mp ends (by simp)
  simpa using visible

/- A line without blanks at its end has none after those at its start are cut off. -/
theorem trimmedStart (words : Text.trimStart line ≠ []) (ends : Text.trimEnd line = line) :
    Text.trim line = Text.trimStart line := by
  obtain ⟨gap, -, whole⟩ := gapBefore line
  rcases List.eq_nil_or_concat (Text.trimStart line) with empty | ⟨before, last, same⟩
  · exact absurd empty words
  · rw [same, List.concat_eq_append, ← List.append_assoc] at whole
    rw [whole] at ends
    unfold Text.trim
    rw [same, List.concat_eq_append]
    exact QuotedEcho.trimEndVisible before (lastVisible ends)

theorem markable (marked : Background.command? (line ++ mark) = some line) : Markable line := by
  obtain ⟨visible, ends⟩ := markedTrimmed marked
  obtain ⟨gap, blank, whole⟩ := gapBefore line
  have words : Text.trimStart line ≠ [] := by
    intro empty
    rw [empty, List.append_nil] at whole
    exact visible (ends.symm.trans (blankIff.mpr (whole ▸ blank)))
  have trimmed := trimmedStart words ends
  have typed : Text.trim (line ++ mark) = Text.trimStart line ++ mark := by
    unfold Text.trim
    rw [startMarked words, endMarked]
  have again : Text.trimStart (Text.trimStart line) = Text.trimStart line := 
    List.dropWhile_eq_self_iff.mpr (List.dropWhile_get_zero_not _ line)
  refine ⟨trimmed ▸ words, trimmed ▸ again, ⟨gap, blank, trimmed ▸ whole⟩, trimmed ▸ typed, ?_⟩
  rw [trimmed]
  have behind := commandBehind blank (Text.trimStart line ++ mark)
  rw [← List.append_assoc, ← whole, marked] at behind
  obtain ⟨command, found, same⟩ := Option.map_eq_some_iff.mp behind.symm
  rw [found, List.append_cancel_left (same.trans whole)]

theorem nameMarked (line : Text) :
    takeName? (line ++ mark) = (takeName? line).map fun (name, rest) => (name, rest ++ mark) :=
  Variable.nameAcross rfl line ['&']

theorem beginsMarked {start : Text} (visible : ' ' ∉ start) (line : Text) :
    Text.dropStart? start (line ++ mark) = (Text.dropStart? start line).map (· ++ mark) :=
  Variable.beginsAcross visible line ['&']

theorem bindingMarked (unbound : Assignment.readBinding? line = none) :
    Assignment.readBinding? (line ++ mark) = none := by
  unfold Assignment.readBinding? at unbound ⊢
  rw [nameMarked]
  cases named : takeName? line with
  | none => rfl
  | some taken =>
    obtain ⟨name, rest⟩ := taken
    rw [named] at unbound
    simp only [Option.map_some, Option.bind_eq_bind, Option.bind_some] at unbound ⊢
    rw [beginsMarked (by simp)]
    cases valued : Text.dropStart? ['='] rest with
    | none => rfl
    | some value =>
      rw [valued] at unbound
      simp only [Option.map_some, Option.bind_some] at unbound ⊢
      by_cases broken : '\n' ∈ value <;> simp_all [mark]

theorem exportMarked (unbound : Assignment.readExport? line = none) :
    Assignment.readExport? (line ++ mark) = none := by
  unfold Assignment.readExport? at unbound ⊢
  rw [beginsMarked (by decide)]
  cases exports : Text.dropStart? "export" line with
  | none => rfl
  | some rest =>
    rw [exports] at unbound
    simp only [Option.map_some, Option.bind_eq_bind, Option.bind_some] at unbound ⊢
    cases rest with
    | nil => rfl
    | cons first later =>
      cases blank : isBlank first with
      | false => simp [blank]
      | true =>
        simp only [List.cons_append, List.head?_cons, Option.map_some, Option.getD_some, blank,
          if_true] at unbound ⊢
        unfold Text.trimStart at unbound ⊢
        rw [← List.cons_append, List.dropWhile_append]
        split
        · rfl
        · exact bindingMarked unbound

theorem readMarked (words : Text.trimStart line ≠ []) (unbound : Assignment.read? line = none) :
    Assignment.read? (line ++ mark) = none := by
  unfold Assignment.read? at unbound ⊢
  rw [startMarked words]
  dsimp only at unbound ⊢
  split at unbound
  · contradiction
  · rename_i exports
    rw [exportMarked exports]
    exact Option.map_eq_none_iff.mpr (bindingMarked (Option.map_eq_none_iff.mp unbound))

theorem assignMarked {s : Shell} {session : SessionId} (markable : Markable line)
    (plain : s.assign? session (Text.trim line) = none) :
    s.assign? session (Text.trim line ++ mark) = none := by
  refine Offstage.assignsNothing.mpr fun data found => ?_
  have unassigned := Offstage.assignsNothing.mp plain data found
  have words : Text.trimStart (Text.trim line) ≠ [] := markable.start.symm ▸ markable.words
  unfold Variables.assign? at unassigned ⊢
  cases read : Assignment.read? (Text.trim line) with
  | none => rw [readMarked words read]; rfl
  | some typed =>
    rw [read] at unassigned
    obtain ⟨target, name, value⟩ := typed
    cases target <;> cases unassigned

end ConsoleShell.MarkedLines
