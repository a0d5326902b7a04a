import ConsoleShell.Quoting
import ConsoleShell.Proofs.WordGrammar

/-! Texts that are quoted to be shown. A text is cut into chunks, and each is written bare or between quotes of
one kind. Single quotes are not taken where a backslash would hide what stands behind it there as well, and
between double quotes a backslash is put before what has a meaning; so every chunk is a row of parts of a
word, and whichever way the text was cut, it is split into that one word again. -/
namespace ConsoleShell.QuotedWords
open Quoting Token WordGrammar

inductive Way where
  | bare
  | single
  | double
  deriving DecidableEq, Repr

namespace Way

def takes : Way → Char → Bool
  | bare, c => isBare c
  | single, c => !(c ∈ ['\'', '^', '\\'])
  | double, c => !(c ∈ [Char.ofNat 0x60, '$', '!', '^'])

def Fits (way : Way) : Text → Prop
  | [] => True
  | first :: rest => (way.takes first = true ∨ first = '^' ∧ way = single) ∧ ∀ c ∈ rest, way.takes c = true

def write : Way → Text → Text
  | bare, chunk => chunk
  | single, chunk => '\'' :: (chunk ++ ['\''])
  | double, chunk => '"' :: (chunk.flatMap (fun c => if c = '"' ∨ c = '\\' then ['\\', c] else [c]) ++ ['"'])

end Way

/- A text, and its chunks as they are written. A chunk ends only where no way fits it together with the
character behind it. -/
inductive Cut : Text → Text → Prop where
  | last {way chunk} (nonempty : chunk ≠ []) (fits : Way.Fits way chunk) : Cut chunk (way.write chunk)
  | more {way chunk c rest written} (nonempty : chunk ≠ []) (fits : Way.Fits way chunk)
      (full : ∀ other, ¬ Way.Fits other (chunk ++ [c])) (later : Cut (c :: rest) written) :
      Cut (chunk ++ c :: rest) (way.write chunk ++ written)

inductive Shown : Text → Text → Prop where
  | empty : Shown [] ['\'', '\'']
  | chunks {text written} (cut : Cut text written) : Shown text written

variable {way : Way} {chunk text written shown : Text} {c : Char}

def isOpen (ways : Ways) : Way → Bool
  | .bare => ways.bare
  | .single => ways.single
  | .double => ways.double

theorem openMeet (a b : Ways) (way : Way) : isOpen (a.meet b) way = (isOpen a way && isOpen b way) := by
  cases way <;> rfl

theorem openCharacter (c : Char) (way : Way) : isOpen (.ofChar c) way = way.takes c := by
  cases way <;> rfl

theorem openFirst (c : Char) (way : Way) : isOpen (.ofFirst c) way = true ↔ way.Fits [c] := by
  unfold Ways.ofFirst
  by_cases caret : c = '^'
  · subst caret
    have closed : isBare '^' = false := by decide +kernel
    cases way <;> simp [isOpen, Way.Fits, Way.takes, closed]
  · rw [if_neg caret, openCharacter]
    simp [Way.Fits, caret]

theorem openNone (ways : Ways) : ways.isNone = true ↔ ∀ way, isOpen ways way = false := by
  obtain ⟨bare, single, double⟩ := ways
  constructor
  · intro closed way
    cases way <;> simp_all [Ways.isNone, isOpen]
  · intro closed
    simp [Ways.isNone, show bare = false from closed .bare, show single = false from closed .single,
      show double = false from closed .double]

theorem firstOpen (c : Char) : (Ways.ofFirst c).isNone = false := by
  unfold Ways.ofFirst
  split
  · rfl
  · rename_i plain
    by_cases hidden : c = '\'' ∨ c = '\\'
    · rcases hidden with rfl | rfl <;> rfl
    · simp only [not_or] at hidden
      simp [Ways.isNone, Ways.ofChar, plain, hidden]

theorem writtenOpen {ways : Ways} (alive : ways.isNone = false) (chunk : Text) :
    ∃ way, isOpen ways way = true ∧ ways.write chunk = way.write chunk := by
  obtain ⟨bare, single, double⟩ := ways
  cases bare with
  | true => exact ⟨.bare, rfl, rfl⟩
  | false =>
    cases single with
    | true => exact ⟨.single, rfl, rfl⟩
    | false =>
      cases double with
      | true => exact ⟨.double, rfl, rfl⟩
      | false => cases alive

theorem fitsAdded (nonempty : chunk ≠ []) : way.Fits (chunk ++ [c]) ↔ way.Fits chunk ∧ way.takes c = true := by
  obtain ⟨first, rest, rfl⟩ := List.exists_cons_of_ne_nil nonempty
  simp [Way.Fits, or_imp, forall_and, and_assoc]

theorem cutFrom {ways : Ways} (nonempty : chunk ≠ []) (fits : ∀ way, isOpen ways way = true ↔ way.Fits chunk)
    (alive : ways.isNone = false) (rest : Text) :
    Cut (chunk ++ rest) ((chunksFrom ways chunk rest).flatMap fun (ways, chunk) => ways.write chunk) := by
  -- What stays the same from one character to the next: the open ways are those that fit the chunk.
  induction rest generalizing ways chunk with
  | nil =>
    obtain ⟨way, wayOpen, same⟩ := writtenOpen alive chunk
    have cut := Cut.last nonempty ((fits way).mp wayOpen)
    simpa [chunksFrom, same] using cut
  | cons c rest ih =>
    have both (way : Way) : isOpen (ways.meet (.ofChar c)) way = true ↔ way.Fits (chunk ++ [c]) := by
      rw [openMeet, Bool.and_eq_true, fits, openCharacter, fitsAdded nonempty]
    unfold chunksFrom
    dsimp only
    split
    · rename_i closed
      obtain ⟨way, wayOpen, same⟩ := writtenOpen alive chunk
      have full (other : Way) : ¬ other.Fits (chunk ++ [c]) := by
        rw [← both, (openNone _).mp closed other]
        exact Bool.false_ne_true
      have later := ih (List.cons_ne_nil c []) (openFirst c) (firstOpen c)
      rw [List.flatMap_cons, same]
      exact .more nonempty ((fits way).mp wayOpen) full later
    · rename_i unclosed
      have later := ih (List.append_ne_nil_of_left_ne_nil nonempty [c]) both (Bool.eq_false_iff.mpr unclosed)
      rwa [List.append_assoc, List.singleton_append] at later

theorem shownQuoted (text : Text) (free : Char.ofNat 0 ∉ text) : Shown text (quote text) := by
  cases text with
  | nil => exact .empty
  | cons c rest =>
    have cut := cutFrom (List.cons_ne_nil c []) (openFirst c) (firstOpen c) rest
    unfold quote
    rw [if_neg (by simp), if_neg (by simpa using free)]
    exact .chunks cut

def marks : List Char := ['\'', '"', '\\']

theorem writtenMember {d : Char} (mem : d ∈ way.write chunk) : d ∈ chunk ∨ d ∈ marks := by
  cases way with
  | bare => exact .inl mem
  | single =>
    simp only [Way.write, marks, List.mem_cons, List.mem_append, List.not_mem_nil, or_false] at mem ⊢
    rcases mem with quote | inside | quote
    · exact .inr (.inl quote)
    · exact .inl inside
    · exact .inr (.inl quote)
  | double =>
    simp only [Way.write, marks, List.mem_cons, List.mem_append, List.mem_flatMap, List.not_mem_nil, or_false] at mem ⊢
    rcases mem with quote | ⟨c, inside, here⟩ | quote
    · exact .inr (.inr (.inl quote))
    · split at here
      · rcases List.mem_cons.mp here with backslash | same
        · exact .inr (.inr (.inr backslash))
        · exact .inl (List.mem_singleton.mp same ▸ inside)
      · exact .inl (List.mem_singleton.mp here ▸ inside)
    · exact .inr (.inr (.inl quote))

theorem cutMember {d : Char} (cut : Cut text written) (mem : d ∈ written) : d ∈ text ∨ d ∈ marks := by
  induction cut with
  | last => exact writtenMember mem
  | more _ _ _ _ ih =>
    rcases List.mem_append.mp mem with here | later
    · exact (writtenMember here).imp_left (List.mem_append_left _)
    · exact (ih later).imp_left (List.mem_append_right _)

theorem shownMember {d : Char} (h : Shown text shown) (mem : d ∈ shown) : d ∈ text ∨ d ∈ marks := by
  cases h with
  | empty =>
    obtain rfl : d = '\'' := by simpa using mem
    exact .inr List.mem_cons_self
  | chunks cut => exact cutMember cut mem

theorem barePlaced (bare : isBare c = true) : '+'.toNat ≤ c.toNat ∧ c.toNat ≤ 'z'.toNat := by
  delta isBare Char.isAlphanum Char.isAlpha Char.isUpper Char.isLower Char.isDigit at bare
  simp only [Bool.or_eq_true, Bool.and_eq_true, decide_eq_true_eq, UInt32.le_iff_toNat_le, ge_iff_le] at bare
  rcases bare with ((upper | lower) | digit) | listed
  · change 65 ≤ c.toNat ∧ c.toNat ≤ 90 at upper
    exact ⟨Nat.le_trans (by decide) upper.1, Nat.le_trans upper.2 (by decide)⟩
  · change 97 ≤ c.toNat ∧ c.toNat ≤ 122 at lower
    exact ⟨Nat.le_trans (by decide) lower.1, lower.2⟩
  · change 48 ≤ c.toNat ∧ c.toNat ≤ 57 at digit
    exact ⟨Nat.le_trans (by decide) digit.1, Nat.le_trans digit.2 (by decide)⟩
  · simp only [List.mem_cons, List.not_mem_nil, or_false] at listed
    rcases listed with rfl | rfl | rfl | rfl | rfl | rfl | rfl | rfl <;> decide

theorem bareVisible (bare : isBare c = true) : isBlank c = false := by
  obtain ⟨least, most⟩ := barePlaced bare
  change 43 ≤ c.toNat at least
  change c.toNat ≤ 122 at most
  simp only [isBlank, Bool.or_eq_false_iff, Bool.and_eq_false_iff, decide_eq_false_iff_not, beq_eq_false_iff_ne]
  omega

theorem bareOrdinary (bare : isBare c = true) : Ordinary c := by
  refine ⟨?_, ?_⟩
  · rintro rfl
    exact absurd bare (by decide)
  · cases quote : isQuote c with
    | false => rfl
    | true =>
      have either : c = '"' ∨ c = '\'' := by simpa [isQuote] using quote
      rcases either with rfl | rfl <;> exact absurd bare (by decide)

theorem partsAppend {first meant later others : Text} (parts : Parts first meant) (rest : Parts later others) :
    Parts (first ++ later) (meant ++ others) := by
  induction parts with
  | none => exact rest
  | more part _ ih =>
    rw [List.append_assoc, List.append_assoc]
    exact .more part ih

theorem partsPlain (plain : ∀ c ∈ chunk, Ordinary c ∧ isBlank c = false) : Parts chunk chunk := by
  induction chunk with
  | nil => exact .none
  | cons c rest ih =>
    obtain ⟨⟨⟨noBackslash, noQuote⟩, visible⟩, later⟩ := List.forall_mem_cons.mp plain
    have parts := Parts.more (.plain noBackslash noQuote visible) (ih later)
    exact parts

theorem partsQuoted {q : Char} (quote : isQuote q = true) (span : Span q written chunk) :
    Parts (q :: (written ++ [q])) chunk := by
  have parts := Parts.more (.quoted quote span) .none
  rwa [List.append_nil, List.append_nil] at parts

theorem spanSingle (plain : ∀ c ∈ chunk, c ≠ '\'' ∧ c ≠ '\\') : Span '\'' chunk chunk := by
  induction chunk with
  | nil => exact .empty
  | cons c rest ih =>
    obtain ⟨⟨stays, noBackslash⟩, later⟩ := List.forall_mem_cons.mp plain
    exact .plain noBackslash stays (ih later)

theorem spanDouble (chunk : Text) :
    Span '"' (chunk.flatMap fun c => if c = '"' ∨ c = '\\' then ['\\', c] else [c]) chunk := by
  induction chunk with
  | nil => exact .empty
  | cons c rest ih =>
    rw [List.flatMap_cons]
    split
    · exact .escaped c ih
    · rename_i plain
      simp only [not_or] at plain
      exact .plain plain.2 plain.1 ih

theorem chunkParts (fits : way.Fits chunk) : Parts (way.write chunk) chunk := by
  cases way with
  | bare =>
    refine partsPlain fun c mem => ?_
    have bare : isBare c = true := by
      cases chunk with
      | nil => contradiction
      | cons first rest =>
        rcases List.mem_cons.mp mem with rfl | later
        · simpa [Way.takes] using fits.1
        · exact fits.2 c later
    exact ⟨bareOrdinary bare, bareVisible bare⟩
  | single =>
    refine partsQuoted rfl (spanSingle fun c mem => ?_)
    cases chunk with
    | nil => contradiction
    | cons first rest =>
      rcases List.mem_cons.mp mem with rfl | later
      · rcases fits.1 with takes | ⟨rfl, -⟩
        · simp_all [Way.takes]
        · decide
      · have takes := fits.2 c later
        simp_all [Way.takes]
  | double => exact partsQuoted rfl (spanDouble chunk)

theorem writtenSome (nonempty : chunk ≠ []) : way.write chunk ≠ [] := by
  cases way with
  | bare => exact nonempty
  | single | double => exact List.cons_ne_nil _ _

theorem cutParts (cut : Cut text written) : Parts written text ∧ written ≠ [] := by
  induction cut with
  | last some fits => exact ⟨chunkParts fits, writtenSome some⟩
  | more some fits full later ih =>
    exact ⟨partsAppend (chunkParts fits) ih.1, List.append_ne_nil_of_left_ne_nil (writtenSome some) _⟩

theorem shownParts (h : Shown text shown) : Parts shown text ∧ shown ≠ [] := by
  cases h with
  | empty => exact ⟨partsQuoted rfl .empty, List.cons_ne_nil _ _⟩
  | chunks cut => exact cutParts cut

theorem partsWord (parts : Parts written text) (nonempty : written ≠ []) : Word written text := by
  cases parts with
  | none => contradiction
  | more part rest => exact .parts part rest

theorem splitsWord (word : Word written text) : tokenize written = .ok [text] := by
  have noBlank : Blank [] := fun _ mem => nomatch mem
  have line := Line.words noBlank (.one word) noBlank
  rw [List.nil_append, List.append_nil] at line
  exact scanLine line

theorem splitsBack (text : Text) (free : Char.ofNat 0 ∉ text) :
    tokenize (quote text) = .ok [text] ∧ Shown text (quote text) ∧
      ∀ shown, Shown text shown → tokenize shown = .ok [text] := by
  have splits {shown : Text} (h : Shown text shown) : tokenize shown = .ok [text] := by
    obtain ⟨parts, nonempty⟩ := shownParts h
    exact splitsWord (partsWord parts nonempty)
  exact ⟨splits (shownQuoted text free), shownQuoted text free, fun _ => splits⟩

theorem splitsBackMixed :
    let text : Text := "it's ^a\\b \"$c\" !\u00a0é"
    Char.ofNat 0 ∉ text ∧ quote text = "\"it's \"'^a'\"\\\\b \\\"\"'$c\" !\u00a0é'" ∧
      tokenize (quote text) = .ok [text] := by
  intro text
  have free : Char.ofNat 0 ∉ text := by decide
  exact ⟨free, by decide +kernel, (splitsBack text free).1⟩

end ConsoleShell.QuotedWords
