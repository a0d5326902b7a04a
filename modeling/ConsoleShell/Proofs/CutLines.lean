import ConsoleShell.Proofs.WordGrammar
import Mathlib.Data.List.DropRight

/-! What is cut off a line before it is split: the blanks at its ends, and the ampersand that puts it in the
background. The ampersand is taken for a mark exactly where the splitting agrees that it is one. The cuts
leave the words as they are, unless a backslash hides the first blank that is cut off: then the backslash is
left with nothing to hide. -/
namespace ConsoleShell.CutLines
open Token WordGrammar
open Expansion (Mode properStart)

variable {line body gap : Text}

structure Marks (line body : Text) : Prop where
  last : Text.trimEnd line = body ++ ['&']
  splits : ∃ words, tokenize body = .ok words
  single : ¬ ['&'] <:+ body
  words : ∃ c ∈ body, isBlank c = false

theorem gapBefore (line : Text) : ∃ gap, Blank gap ∧ line = gap ++ Text.trimStart line :=
  ⟨line.takeWhile isBlank, fun _ mem => List.all_eq_true.mp List.all_takeWhile _ mem,
    List.takeWhile_append_dropWhile.symm⟩

theorem gapBehind (line : Text) : ∃ gap, Blank gap ∧ line = Text.trimEnd line ++ gap :=
  ⟨line.rtakeWhile isBlank, fun _ mem => List.mem_rtakeWhile_imp mem,
    List.rdropWhile_append_rtakeWhile.symm⟩

theorem blankIff : Text.trimEnd line = [] ↔ Blank line := List.rdropWhile_eq_nil_iff

theorem droppedEnd {ending : Text} : Text.dropEnd? ending line = some body ↔ line = body ++ ending := by
  unfold Text.dropEnd?
  constructor
  · intro dropped
    split at dropped
    · rename_i ends
      obtain ⟨before, rfl⟩ := List.isSuffixOf_iff_suffix.mp ends
      cases dropped
      simp
    · contradiction
  · rintro rfl
    rw [if_pos (List.isSuffixOf_iff_suffix.mpr (List.suffix_append body ending))]
    simp

/- The two scans behind a mark, one for backslashes from the end and one for quotes, ask together whether the
text before it can be split. -/
theorem splitsIff : (∃ words, tokenize body = .ok words) ↔
    ¬ Stray body ∧ Background.leavesOpen none body = false := by
  have ending : (tokenize body).map (fun _ => ()) = (Mode.after {} body).ending :=
    Expansion.scanEnding none none body
  have stray : tokenize body = .error .strayBackslash ↔ Stray body := scanStray none none body
  rw [← stray, Expansion.openAfter]
  generalize Mode.after {} body = m at ending ⊢
  unfold Mode.ending at ending
  cases outcome : tokenize body with
  | ok words =>
    rw [outcome] at ending
    split at ending
    · contradiction
    · split at ending
      · contradiction
      · rename_i closed
        simpa using closed
  | error error =>
    rw [outcome] at ending
    split at ending
    · cases ending
      simp
    · split at ending
      · rename_i isOpen
        simp [isOpen]
      · contradiction

theorem visibleIff : (Text.trimEnd body).isEmpty = false ↔ ∃ c ∈ body, isBlank c = false := by
  rw [List.isEmpty_eq_false_iff, Ne, blankIff]
  simp [Blank]

theorem commandIff {command : Text} : Background.command? line = some command ↔
    ∃ body, Marks line body ∧ Text.trimEnd body = command := by
  have refuses (body : Text) : (['&'].isSuffixOf body || Background.finalBackslashes body % 2 = 1 ||
      Background.leavesOpen none body) = false ↔ ¬ ['&'] <:+ body ∧ ∃ words, tokenize body = .ok words := by
    rw [splitsIff, Bool.or_eq_false_iff, Bool.or_eq_false_iff, ← List.isSuffixOf_iff_suffix,
      Bool.not_eq_true, decide_eq_false_iff_not, and_assoc]
    rfl
  unfold Background.command?
  simp only [Option.bind_eq_bind, Option.bind_eq_some_iff, droppedEnd]
  refine exists_congr fun body => ?_
  constructor
  · rintro ⟨last, marked⟩
    split at marked
    · contradiction
    · rename_i passed
      split at marked
      · contradiction
      · rename_i words
        obtain ⟨single, splits⟩ := (refuses body).mp (Bool.eq_false_iff.mpr passed)
        have visible := visibleIff.mp (Bool.eq_false_iff.mpr words)
        exact ⟨⟨last, splits, single, visible⟩, Option.some.inj marked⟩
  · rintro ⟨⟨last, splits, single, words⟩, rfl⟩
    refine ⟨last, ?_⟩
    rw [(refuses body).mpr ⟨single, splits⟩, visibleIff.mpr words]
    rfl

theorem scanOpen {q : Char} (isOpen : isQuote q = true) (blank : Blank gap) (word : Option Text) :
    scan word (some q) gap = .error .unterminatedQuote := by
  induction gap generalizing word with
  | nil => rfl
  | cons c gap ih =>
    obtain ⟨first, later⟩ := List.forall_mem_cons.mp blank
    obtain ⟨noBackslash, noQuote⟩ := blankVisible first
    have other : q ≠ c := by
      rintro rfl
      exact absurd isOpen (Bool.eq_false_iff.mp noQuote)
    simpa [scan, noBackslash, other] using ih later (extend word c)

/- Blanks behind a line mean nothing where no backslash is left to hide the first of them. -/
theorem scanBehind {word : Option Text} {quote : Option Char} {text : Text} (clear : ¬ Stray text)
    (proper : Mode.Proper ⟨quote, false⟩) (blank : Blank gap) :
    scan word quote (text ++ gap) = scan word quote text := by
  fun_induction scan word quote text with
  | case1 word quote isOpen =>
    obtain ⟨q, rfl⟩ := Option.isSome_iff_exists.mp isOpen
    exact scanOpen (proper q rfl) blank word
  | case2 word quote closed =>
    obtain rfl : quote = none := by simpa using closed
    cases gap with
    | nil => rfl
    | cons c gap =>
      have ends := scanEnds blank (List.cons_ne_nil c gap) word []
      simpa [scan, Except.map] using ends
  | case3 => exact absurd rfl clear
  | case4 word quote c rest ih =>
    rw [strayPair] at clear
    simpa [scan] using ih clear proper
  | case5 word c rest last pair ih =>
    have plain := Expansion.noBackslash last pair
    rw [strayPlain plain] at clear
    simpa [scan, plain] using ih clear properStart
  | case6 word quote c rest last pair other opens ih =>
    have plain := Expansion.noBackslash last pair
    rw [strayPlain plain] at clear
    have isQuoted : Mode.Proper ⟨some c, false⟩ := by
      intro q same
      rw [← Option.some.inj same]
      exact (Bool.and_eq_true_iff.mp opens).2
    simpa [scan, plain, other, opens] using ih clear isQuoted
  | case7 word quote c rest last pair other same isGap ih =>
    have plain := Expansion.noBackslash last pair
    rw [strayPlain plain] at clear
    obtain ⟨outside, isGap⟩ := Bool.and_eq_true_iff.mp isGap
    obtain rfl : quote = none := by simpa using outside
    rw [List.cons_append, scanBlank isGap, ih clear properStart]
  | case8 word quote c rest last pair other same inside ih =>
    have plain := Expansion.noBackslash last pair
    rw [strayPlain plain] at clear
    simpa [scan, plain, other, same, inside] using ih clear proper

theorem splitsBehind {text : Text} (clear : ¬ Stray text) (blank : Blank gap) :
    tokenize (text ++ gap) = tokenize text := by
  unfold tokenize
  exact scanBehind clear properStart blank

/- Where the cut leaves a backslash with nothing to hide, this is all that splitting finds. -/
theorem splitsBefore (text : Text) (blank : Blank gap) : tokenize text =
    if Stray text then .error .strayBackslash else tokenize (text ++ gap) := by
  split
  · rename_i stray
    exact (scanStray none none text).mpr stray
  · rename_i clear
    exact (splitsBehind clear blank).symm

theorem splitsTrimmed (line : Text) : tokenize (Text.trim line) =
    if Stray (Text.trim line) then .error .strayBackslash else tokenize line := by
  obtain ⟨before, first, whole⟩ := gapBefore line
  obtain ⟨behind, last, rest⟩ := gapBehind (Text.trimStart line)
  have start : tokenize line = tokenize (Text.trimStart line) := by
    conv_lhs => rw [whole]
    exact scanGap first _
  rw [start]
  conv_rhs => rw [rest]
  exact splitsBefore _ last

theorem markedExactly (line command : Text) : Background.command? line = some command ↔
    ∃ body, Marks line body ∧ Text.trimEnd body = command := commandIff

theorem cutsKeepWords (line : Text) :
    (tokenize (Text.trim line) =
      if Stray (Text.trim line) then .error .strayBackslash else tokenize line) ∧
    ∀ command, Background.command? line = some command → ∃ body gap words,
      line = body ++ '&' :: gap ∧ Blank gap ∧ tokenize (body ++ gap) = .ok words ∧
        tokenize command = if Stray command then .error .strayBackslash else .ok words := by
  refine ⟨splitsTrimmed line, fun command marked => ?_⟩
  obtain ⟨body, ⟨last, ⟨words, splits⟩, -, -⟩, rfl⟩ := commandIff.mp marked
  obtain ⟨gap, blank, whole⟩ := gapBehind line
  obtain ⟨behind, hidden, rest⟩ := gapBehind body
  rw [last] at whole
  have clear : ¬ Stray body := (splitsIff.mp ⟨words, splits⟩).1
  have unmarked : tokenize (body ++ gap) = .ok words := (splitsBehind clear blank).trans splits
  refine ⟨body, gap, words, by simpa using whole, blank, unmarked, ?_⟩
  rw [splitsBefore (Text.trimEnd body) hidden, ← rest, splits]

theorem cutsKeepWordsPaired :
    Background.command? " say 'a &' \\\\ & " = some " say 'a &' \\\\" ∧
      ∃ body gap words, " say 'a &' \\\\ & ".toList = body ++ '&' :: gap ∧ Blank gap ∧
        tokenize (body ++ gap) = .ok words ∧ tokenize " say 'a &' \\\\" = .ok words := by
  have marked : Background.command? " say 'a &' \\\\ & " = some " say 'a &' \\\\" := by decide
  obtain ⟨body, gap, words, whole, blank, unmarked, command⟩ :=
    (cutsKeepWords " say 'a &' \\\\ & ").2 _ marked
  exact ⟨marked, body, gap, words, whole, blank, unmarked, command⟩

theorem hiddenBlankCut :
    tokenize "echo a\\ " = .ok ["echo", "a "] ∧
      tokenize (Text.trim "echo a\\ ") = .error .strayBackslash ∧
      Background.command? "echo a\\ &" = some "echo a\\" ∧
      tokenize "echo a\\" = .error .strayBackslash :=
  ⟨rfl, rfl, rfl, rfl⟩

end ConsoleShell.CutLines
