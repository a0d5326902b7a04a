import ConsoleShell.Proofs.Rendering

/-! The grammar of text with escape sequences. A text falls into pieces: a character that is shown, an escape
character that takes the next character with it, or a whole sequence, which begins with a bracket and ends with
its first character from `@` to `~`. What is left at the end of the text is the beginning of a sequence or
nothing. Only whole sequences that end with `m` select a style. -/
namespace ConsoleShell.EscapeGrammar
open Render

inductive Piece where
  | shown (c : Char) (ordinary : c ≠ escapeCharacter)
  | lone (selector : Char) (alone : selector ≠ '[')
  | sequence (body : Text) (final : Char) (runs : ∀ c ∈ body, endsSequence c = false)
      (ends : endsSequence final = true)

inductive Tail where
  | none
  | escape
  | parameters (body : Text) (runs : ∀ c ∈ body, endsSequence c = false)

def Piece.text : Piece → Text
  | shown c _ => [c]
  | lone selector _ => [escapeCharacter, selector]
  | sequence body final _ _ => escapeCharacter :: '[' :: (body ++ [final])

def Tail.text : Tail → Text
  | none => []
  | escape => [escapeCharacter]
  | parameters body _ => escapeCharacter :: '[' :: body

def written (pieces : List Piece) : Text := pieces.flatMap Piece.text

def Piece.Selects : Piece → Prop
  | shown _ _ | lone _ _ => False
  | sequence _ final _ _ => final = 'm'

def Piece.select (style : Style) : Piece → Style
  | shown _ _ | lone _ _ => style
  | sequence body final _ _ => if final = 'm' then style.selectAll (Style.readCodes body) else style

def Piece.characters (style : Style) : Piece → List (Char × Style)
  | shown c _ => [(c, style)]
  | lone _ _ | sequence _ _ _ _ => []

def styleAfter (style : Style) (pieces : List Piece) : Style := pieces.foldl Piece.select style

def charactersOf (style : Style) : List Piece → List (Char × Style)
  | [] => []
  | piece :: rest => piece.characters style ++ charactersOf (piece.select style) rest

def Denotes (text : Text) (characters : List (Char × Style)) : Prop :=
  ∃ pieces tail, text = written pieces ++ Tail.text tail ∧ characters = charactersOf Style.plain pieces

def EndsOutside (text : Text) : Prop := ∃ pieces, text = written pieces

variable {style : Style} {rest : Text} {piece : Piece} {pieces : List Piece}

@[simp] theorem writtenNil : written [] = [] := rfl

@[simp] theorem writtenCons : written (piece :: pieces) = piece.text ++ written pieces := rfl

@[simp] theorem writtenAppend (a b : List Piece) : written (a ++ b) = written a ++ written b :=
  List.flatMap_append

theorem charactersAppend (style : Style) (a b : List Piece) :
    charactersOf style (a ++ b) = charactersOf style a ++ charactersOf (styleAfter style a) b := by
  induction a generalizing style with
  | nil => rfl
  | cons piece rest ih => simp [charactersOf, styleAfter, ih (piece.select style)]

theorem styleKept (still : ∀ p ∈ pieces, ¬ p.Selects) : styleAfter style pieces = style := by
  induction pieces with
  | nil => rfl
  | cons piece rest ih =>
    obtain ⟨first, later⟩ := List.forall_mem_cons.mp still
    have same : piece.select style = style := by
      cases piece with
      | shown | lone => rfl
      | sequence body final => exact if_neg first
    exact (congrArg (styleAfter · rest) same).trans (ih later)

theorem digitRuns {c : Char} (digit : c.isDigit = true) : endsSequence c = false := by
  simp [Char.isDigit, endsSequence, Char.le_def, UInt32.le_iff_toNat_le] at digit ⊢
  omega

theorem styledBody (before : Text) {body : Text} (runs : ∀ c ∈ body, endsSequence c = false) :
    styledFrom style (.parameters before) (body ++ rest) =
      styledFrom style (.parameters (before ++ body)) rest := by
  induction body generalizing before with
  | nil => simp
  | cons c later ih =>
    obtain ⟨going, runs⟩ := List.forall_mem_cons.mp runs
    have other : c ≠ 'm' := by
      rintro rfl
      exact absurd going (by decide)
    rw [List.cons_append, styledFrom, if_neg other, if_neg (by simp [going]), ih _ runs]
    simp

theorem styledPiece (style : Style) (piece : Piece) (rest : Text) :
    styledFrom style .text (piece.text ++ rest) =
      piece.characters style ++ styledFrom (piece.select style) .text rest := by
  cases piece with
  | shown c ordinary => simp [Piece.text, Piece.characters, Piece.select, styledFrom, ordinary]
  | lone selector alone => simp [Piece.text, Piece.characters, Piece.select, styledFrom, alone]
  | sequence body final runs ends =>
    have opened : styledFrom style .text ((Piece.sequence body final runs ends).text ++ rest) =
        styledFrom style (.parameters []) (body ++ final :: rest) := by
      simp [Piece.text, styledFrom]
    rw [opened, styledBody [] runs, List.nil_append, styledFrom]
    by_cases selects : final = 'm'
    · simp [Piece.characters, Piece.select, selects]
    · simp [Piece.characters, Piece.select, selects, ends]

theorem styledWritten (style : Style) (pieces : List Piece) (rest : Text) :
    styledFrom style .text (written pieces ++ rest) =
      charactersOf style pieces ++ styledFrom (styleAfter style pieces) .text rest := by
  induction pieces generalizing style with
  | nil => rfl
  | cons piece later ih =>
    rw [writtenCons, List.append_assoc, styledPiece, ih]
    simp [charactersOf, styleAfter]

theorem styledTail (style : Style) (tail : Tail) : styledFrom style .text tail.text = [] := by
  cases tail with
  | none => rfl
  | escape => simp [Tail.text, styledFrom]
  | parameters body runs =>
    have opened : styledFrom style .text (Tail.parameters body runs).text =
        styledFrom style (.parameters []) (body ++ []) := by
      simp [Tail.text, styledFrom]
    rw [opened, styledBody [] runs, styledFrom]

theorem styledRead (style : Style) (pieces : List Piece) (tail : Tail) :
    styledFrom style .text (written pieces ++ tail.text) = charactersOf style pieces := by
  rw [styledWritten, styledTail, List.append_nil]

/- Every text falls into pieces: what was begun takes the next character or ends with it. -/
theorem readBegun (begun : Tail) (text : Text) :
    ∃ pieces tail, begun.text ++ text = written pieces ++ Tail.text tail := by
  induction text generalizing begun with
  | nil => exact ⟨[], begun, by simp⟩
  | cons c rest ih =>
    -- the character ends a piece, and the rest is read afresh
    have ended (piece : Piece) (whole : begun.text ++ [c] = piece.text) :
        ∃ pieces tail, begun.text ++ c :: rest = written pieces ++ Tail.text tail := by
      obtain ⟨pieces, tail, later⟩ := ih .none
      refine ⟨piece :: pieces, tail, ?_⟩
      rw [writtenCons, List.append_assoc, ← later, ← whole]
      simp [Tail.text]
    -- or it goes on with what was begun
    have goes (next : Tail) (whole : begun.text ++ [c] = next.text) :
        ∃ pieces tail, begun.text ++ c :: rest = written pieces ++ Tail.text tail := by
      obtain ⟨pieces, tail, later⟩ := ih next
      exact ⟨pieces, tail, by rw [← later, ← whole]; simp⟩
    cases begun with
    | none =>
      by_cases escape : c = escapeCharacter
      · exact goes .escape (by simp [Tail.text, escape])
      · exact ended (.shown c escape) (by simp [Tail.text, Piece.text])
    | escape =>
      by_cases bracket : c = '['
      · exact goes (.parameters [] (by simp)) (by simp [Tail.text, bracket])
      · exact ended (.lone c bracket) (by simp [Tail.text, Piece.text])
    | parameters body runs =>
      cases final : endsSequence c with
      | true => exact ended (.sequence body c runs final) (by simp [Tail.text, Piece.text])
      | false =>
        have longer : ∀ d ∈ body ++ [c], endsSequence d = false :=
          eachAdded runs final
        exact goes (.parameters (body ++ [c]) longer) (by simp [Tail.text])

theorem readText (text : Text) : ∃ pieces tail, text = written pieces ++ Tail.text tail :=
  readBegun .none text

theorem denotesIff {text : Text} {characters : List (Char × Style)} :
    Denotes text characters ↔ styled text = characters := by
  constructor
  · rintro ⟨pieces, tail, rfl, rfl⟩
    exact styledRead Style.plain pieces tail
  · rintro rfl
    obtain ⟨pieces, tail, rfl⟩ := readText text
    exact ⟨pieces, tail, rfl, styledRead Style.plain pieces tail⟩

end ConsoleShell.EscapeGrammar
