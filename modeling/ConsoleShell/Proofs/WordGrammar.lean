import ConsoleShell.Proofs.Expansion

/-! The grammar of words. A line is words with blanks around and between them, a word is a row of
parts, and a part is a character, a backslash with the character that it hides, or a quoted span.
Splitting accepts the lines of this grammar and no others, and what it finds are the words as they are
meant; which of the two errors another line makes hangs on the backslashes at its end alone. -/
namespace ConsoleShell.WordGrammar
open Token Expansion

inductive Span (q : Char) : Text → Text → Prop where
  | empty : Span q [] []
  | escaped (c) {written meant} (rest : Span q written meant) :
      Span q ('\\' :: c :: written) (c :: meant)
  | plain {c written meant} (noBackslash : c ≠ '\\') (stays : c ≠ q) (rest : Span q written meant) :
      Span q (c :: written) (c :: meant)

inductive Part : Text → Text → Prop where
  | plain {c} (noBackslash : c ≠ '\\') (noQuote : isQuote c = false) (visible : isBlank c = false) :
      Part [c] [c]
  | escaped (c) : Part ['\\', c] [c]
  | quoted {q written meant} (quote : isQuote q = true) (span : Span q written meant) :
      Part (q :: (written ++ [q])) meant

inductive Parts : Text → Text → Prop where
  | none : Parts [] []
  | more {first meant later others} (part : Part first meant) (rest : Parts later others) :
      Parts (first ++ later) (meant ++ others)

inductive Word : Text → Text → Prop where
  | parts {first meant later others} (part : Part first meant) (rest : Parts later others) :
      Word (first ++ later) (meant ++ others)

def Blank (gap : Text) : Prop := ∀ c ∈ gap, isBlank c = true

inductive Row : Text → List Text → Prop where
  | one {written word} (read : Word written word) : Row written [word]
  | more {written word gap later words} (read : Word written word) (blank : Blank gap) (apart : gap ≠ [])
      (rest : Row later words) : Row (written ++ gap ++ later) (word :: words)

inductive Line : Text → List Text → Prop where
  | blank {gap} (blank : Blank gap) : Line gap []
  | words {before row after words} (first : Blank before) (read : Row row words) (last : Blank after) :
      Line (before ++ row ++ after) words

def Stray (line : Text) : Prop := Background.finalBackslashes line % 2 = 1

instance (line : Text) : Decidable (Stray line) := inferInstanceAs (Decidable (_ = _))

theorem blankVisible {c : Char} (blank : isBlank c = true) : c ≠ '\\' ∧ isQuote c = false := by
  constructor
  · rintro rfl
    contradiction
  · cases quote : isQuote c with
    | false => rfl
    | true =>
      have either : c = '"' ∨ c = '\'' := by simpa [isQuote] using quote
      rcases either with rfl | rfl <;> contradiction

theorem scanSpan {q : Char} {written meant : Text} (span : Span q written meant) (noBackslash : q ≠ '\\')
    (word : Text) (rest : Text) :
    scan (some word) (some q) (written ++ q :: rest) = scan (some (word ++ meant)) none rest := by
  induction span generalizing word with
  | empty => simp [scan, noBackslash]
  | escaped c _ ih => simpa [scan, extend] using ih (word ++ [c])
  | @plain c _ _ plain stays _ ih =>
    simpa [scan, extend, plain, Ne.symm stays] using ih (word ++ [c])

theorem quoteVisible {q : Char} (quote : isQuote q = true) : q ≠ '\\' := by
  rintro rfl
  contradiction

theorem scanPart {written meant : Text} (part : Part written meant) (word : Option Text) (rest : Text) :
    scan word none (written ++ rest) = scan (some (word.getD [] ++ meant)) none rest := by
  cases part with
  | plain noBackslash noQuote visible => simp [scan, extend, noBackslash, noQuote, visible]
  | escaped c => simp [scan, extend]
  | quoted quote span =>
    have inside := scanSpan span (quoteVisible quote) (word.getD []) rest
    simpa [scan, quoteVisible quote, quote] using inside

theorem scanParts {written meant : Text} (parts : Parts written meant) (word rest : Text) :
    scan (some word) none (written ++ rest) = scan (some (word ++ meant)) none rest := by
  induction parts generalizing word with
  | none => simp
  | @more first meant later others part _ ih =>
    rw [List.append_assoc, scanPart part, Option.getD_some, ih, List.append_assoc]

theorem scanWord {written meant : Text} (word : Word written meant) (rest : Text) :
    scan none none (written ++ rest) = scan (some meant) none rest := by
  cases word with
  | parts part others =>
    rw [List.append_assoc, scanPart part, scanParts others]
    rfl

theorem scanBlank {c : Char} (blank : isBlank c = true) (word : Option Text) (rest : Text) :
    scan word none (c :: rest) = (scan none none rest).map (word.toList ++ ·) := by
  obtain ⟨noBackslash, noQuote⟩ := blankVisible blank
  simp [scan, noBackslash, noQuote, blank]

theorem scanGap {gap : Text} (blank : Blank gap) (rest : Text) :
    scan none none (gap ++ rest) = scan none none rest := by
  induction gap with
  | nil => rfl
  | cons c gap ih =>
    obtain ⟨first, later⟩ := List.forall_mem_cons.mp blank
    rw [List.cons_append, scanBlank first, ih later]
    cases scan none none rest <;> rfl

theorem scanEnds {gap : Text} (blank : Blank gap) (apart : gap ≠ []) (word : Option Text) (rest : Text) :
    scan word none (gap ++ rest) = (scan none none rest).map (word.toList ++ ·) := by
  cases gap with
  | nil => contradiction
  | cons c gap =>
    obtain ⟨first, later⟩ := List.forall_mem_cons.mp blank
    rw [List.cons_append, scanBlank first, scanGap later]

theorem scanRow {row : Text} {words : List Text} (read : Row row words) {after : Text}
    (last : Blank after) : scan none none (row ++ after) = .ok words := by
  induction read with
  | @one written word read =>
    rw [scanWord read]
    cases after with
    | nil => rfl
    | cons c after =>
      have ends := scanEnds last (List.cons_ne_nil c after) (some word) []
      rwa [List.append_nil] at ends
  | more read blank apart _ ih =>
    rw [List.append_assoc, List.append_assoc, scanWord read, scanEnds blank apart, ih]
    rfl

theorem scanLine {line : Text} {words : List Text} (read : Line line words) :
    tokenize line = .ok words := by
  unfold tokenize
  cases read with
  | blank blank =>
    have gap := scanGap blank []
    rwa [List.append_nil] at gap
  | words first read last => rw [List.append_assoc, scanGap first, scanRow read last]

inductive Tail : Text → List Text → Prop where
  | ended : Tail [] []
  | blank {c rest words} (blank : isBlank c = true) (line : Line rest words) : Tail (c :: rest) words

/- The rest of a line whose first word is under way. -/
inductive Under (word : Text) : Text → List Text → Prop where
  | rest {written meant behind words} (parts : Parts written meant) (tail : Tail behind words) :
      Under word (written ++ behind) ((word ++ meant) :: words)

theorem underMore {word first meant rest : Text} {words : List Text} (part : Part first meant)
    (under : Under (word ++ meant) rest words) : Under word (first ++ rest) words := by
  cases under with
  | rest parts tail =>
    rw [← List.append_assoc, List.append_assoc word]
    exact .rest (.more part parts) tail

theorem lineBlank {c : Char} {rest : Text} {words : List Text} (blank : isBlank c = true)
    (line : Line rest words) : Line (c :: rest) words := by
  cases line with
  | blank later => exact .blank (List.forall_mem_cons.mpr ⟨blank, later⟩)
  | @words before row after _ first read last =>
    have line := Line.words (List.forall_mem_cons.mpr ⟨blank, first⟩) read last
    exact line

theorem lineWord {written word behind : Text} {words : List Text} (read : Word written word)
    (tail : Tail behind words) : Line (written ++ behind) (word :: words) := by
  have noBlank : Blank [] := fun _ mem => nomatch mem
  cases tail with
  | ended => exact .words noBlank (.one read) noBlank
  | @blank c rest _ first line =>
    have gap {later : Text} (blank : Blank later) : Blank (c :: later) :=
      List.forall_mem_cons.mpr ⟨first, blank⟩
    cases line with
    | blank later => exact .words noBlank (.one read) (gap later)
    | @words before row after _ later row last =>
      have line := Line.words noBlank (.more read (gap later) (List.cons_ne_nil c before) row) last
      simpa using line

theorem lineUnder {first meant rest : Text} {words : List Text} (part : Part first meant)
    (under : Under meant rest words) : Line (first ++ rest) words := by
  cases under with
  | rest parts tail =>
    rw [← List.append_assoc]
    exact lineWord (.parts part parts) tail

/- How the rest of a line is to be read: what of it is quoted still, what belongs to the word under way,
and the words behind. A quote is open only inside a word. -/
def Reads : Option Text → Option Char → Text → List Text → Prop
  | none, none, rest, words => Line rest words
  | some word, none, rest, words => Under word rest words
  | none, some _, _, _ => True
  | some word, some q, rest, words => ∃ written meant behind, rest = written ++ q :: behind ∧
      Span q written meant ∧ Under (word ++ meant) behind words

theorem readsPart {word : Option Text} {first meant rest : Text} {words : List Text}
    (part : Part first meant) (under : Under (word.getD [] ++ meant) rest words) :
    Reads word none (first ++ rest) words := by
  cases word with
  | none => exact lineUnder part under
  | some word => exact underMore part under

theorem scanReads {word : Option Text} {quote : Option Char} {rest : Text} {words : List Text}
    (scanned : scan word quote rest = .ok words) : Reads word quote rest words := by
  fun_induction scan word quote rest generalizing words with
  | case1 | case3 => contradiction
  | case2 word quote closed =>
    cases scanned
    obtain rfl : quote = none := by simpa using closed
    cases word with
    | none => exact .blank fun _ mem => absurd mem List.not_mem_nil
    | some word =>
      have under : Under word [] [word ++ []] := .rest .none .ended
      rw [List.append_nil] at under
      exact under
  | case4 word quote c rest ih =>
    have later := ih scanned
    cases quote with
    | none => exact readsPart (.escaped c) later
    | some q =>
      cases word with
      | none => trivial
      | some word =>
        obtain ⟨written, meant, behind, rfl, span, under⟩ := later
        rw [List.append_assoc] at under
        exact ⟨'\\' :: c :: written, c :: meant, behind, rfl, .escaped c span, under⟩
  | case5 word c rest last pair ih =>
    cases word with
    | none => trivial
    | some word =>
      have later : Under word rest words := ih scanned
      rw [← List.append_nil word] at later
      exact ⟨[], [], rest, rfl, .empty, later⟩
  | case6 word quote c rest last pair other opens ih =>
    obtain ⟨outside, isOpen⟩ := Bool.and_eq_true_iff.mp opens
    obtain rfl : quote = none := by simpa using outside
    obtain ⟨written, meant, behind, rfl, span, under⟩ := ih scanned
    have read := readsPart (.quoted isOpen span) under
    simpa using read
  | case7 word quote c rest last pair other same blank ih =>
    obtain ⟨outside, isGap⟩ := Bool.and_eq_true_iff.mp blank
    obtain rfl : quote = none := by simpa using outside
    cases later : scan none none rest with
    | error e =>
      rw [later] at scanned
      contradiction
    | ok others =>
      rw [later] at scanned
      cases scanned
      have line : Line rest others := ih later
      cases word with
      | none => exact lineBlank isGap line
      | some word =>
        have under : Under word (c :: rest) ((word ++ []) :: others) :=
          .rest .none (.blank isGap line)
        rw [List.append_nil] at under
        exact under
  | case8 word quote c rest last pair other same inside ih =>
    have plain := noBackslash last pair
    have later := ih scanned
    cases quote with
    | none =>
      have noQuote : isQuote c = false := by simpa using same
      have visible : isBlank c = false := by simpa using inside
      exact readsPart (.plain plain noQuote visible) later
    | some q =>
      cases word with
      | none => trivial
      | some word =>
        obtain ⟨written, meant, behind, rfl, span, under⟩ := later
        rw [List.append_assoc] at under
        have stays : c ≠ q := fun equal => other (congrArg some equal.symm)
        exact ⟨c :: written, c :: meant, behind, rfl, .plain plain stays span, under⟩

theorem finalCons (c : Char) (rest : Text) :
    Background.finalBackslashes (c :: rest) =
      if Background.finalBackslashes rest = rest.length then
        rest.length + if c = '\\' then 1 else 0
      else Background.finalBackslashes rest := by
  unfold Background.finalBackslashes
  rw [List.reverse_cons, List.takeWhile_append, List.length_reverse]
  by_cases alone : (rest.reverse.takeWhile fun c => decide (c = '\\')).length = rest.length
  · by_cases backslash : c = '\\' <;> simp [alone, backslash]
  · simp [alone]

theorem finalMost (rest : Text) : Background.finalBackslashes rest ≤ rest.length := by
  have most := (List.takeWhile_prefix (· = '\\') (l := rest.reverse)).length_le
  rwa [List.length_reverse] at most

theorem strayPlain {c : Char} (plain : c ≠ '\\') (rest : Text) : Stray (c :: rest) ↔ Stray rest := by
  unfold Stray
  rw [finalCons, if_neg plain]
  split
  · rename_i alone
    rw [alone, Nat.add_zero]
  · rfl

/- A backslash that hides a character leaves it to the rest of the line whether one is left over. -/
theorem strayPair (c : Char) (rest : Text) : Stray ('\\' :: c :: rest) ↔ Stray rest := by
  have most := finalMost rest
  unfold Stray
  rw [finalCons, if_pos rfl, List.length_cons, finalCons]
  grind

theorem scanStray (word : Option Text) (quote : Option Char) (rest : Text) :
    scan word quote rest = .error .strayBackslash ↔ Stray rest := by
  fun_induction scan word quote rest with
  | case1 | case2 | case3 => simp [Stray, Background.finalBackslashes]
  | case4 word quote c rest ih => rw [ih, strayPair]
  | case5 word c rest last pair ih => rw [ih, strayPlain (noBackslash last pair)]
  | case6 word quote c rest last pair other opens ih => rw [ih, strayPlain (noBackslash last pair)]
  | case7 word quote c rest last pair other same blank ih =>
    rw [strayPlain (noBackslash last pair), ← ih]
    cases scan none none rest <;> simp [Except.map]
  | case8 word quote c rest last pair other same inside ih =>
    rw [ih, strayPlain (noBackslash last pair)]

theorem splitsByGrammar (line : Text) :
    (∀ words, tokenize line = .ok words ↔ Line line words) ∧
      (tokenize line = .error .strayBackslash ↔ Stray line) ∧
      (tokenize line = .error .unterminatedQuote ↔ (∀ words, ¬ Line line words) ∧ ¬ Stray line) := by
  have accepts (words : List Text) : tokenize line = .ok words ↔ Line line words :=
    ⟨fun scanned => scanReads scanned, scanLine⟩
  have stray : tokenize line = .error .strayBackslash ↔ Stray line := scanStray none none line
  refine ⟨accepts, stray, ?_⟩
  simp only [← accepts, ← stray]
  cases tokenize line with
  | ok words => simp
  | error e => cases e <;> simp

example : Stray "say \"a b\\" ∧ ¬ Stray "say \"a b\\\\" := by decide

end ConsoleShell.WordGrammar
