import ConsoleShell.Proofs.CanonicalRendering

/-! Lines that are printed as errors. Each is put between the sequence that selects red and a reset, which gives it
another style and leaves its text alone. Only where a line ends inside an escape sequence, that sequence swallows
the beginning of the reset, and the rest of it is shown. -/
namespace ConsoleShell.ErrorLines
open Render EscapeGrammar StyledLines CanonicalRendering

def redStyle : Style := { foreground := some ⟨.red, false⟩ }

/- What is shown of the reset behind the beginning of a sequence. -/
def leftover : Tail → Text
  | .none => []
  | .escape => "[0m"
  | .parameters _ _ => "0m"

structure Restyled (raw : Text) (regular error : Line) : Prop where
  sameText : error.plain = regular.plain ↔ EndsOutside raw
  moreText : ∃ pieces tail, raw = written pieces ++ Tail.text tail ∧
    error.plain = regular.plain ++ leftover tail
  red : ∀ before after, raw = written before ++ after → (∀ p ∈ before, ¬ p.Selects) →
    (Render.line (written before)).plain.map (·, Style.plain) <+: characters regular ∧
      (Render.line (written before)).plain.map (·, redStyle) <+: characters error

variable {style : Style} {pieces : List Piece} {tail : Tail} {raw : Text}

theorem sameCharacters (a b : Style) (pieces : List Piece) :
    (charactersOf a pieces).map Prod.fst = (charactersOf b pieces).map Prod.fst := by
  induction pieces generalizing a b with
  | nil => rfl
  | cons piece rest ih =>
    have first : (piece.characters a).map Prod.fst = (piece.characters b).map Prod.fst := by
      cases piece <;> rfl
    rw [charactersOf, charactersOf, List.map_append, List.map_append, first, ih]

theorem charactersStill (still : ∀ p ∈ pieces, ¬ p.Selects) (style : Style) :
    charactersOf style pieces = ((charactersOf style pieces).map Prod.fst).map (·, style) := by
  induction pieces with
  | nil => rfl
  | cons piece rest ih =>
    obtain ⟨first, later⟩ := List.forall_mem_cons.mp still
    have single : ∀ p ∈ [piece], ¬ p.Selects := by simpa using first
    have kept : piece.select style = style := styleKept single
    have own : piece.characters style = ((piece.characters style).map Prod.fst).map (·, style) := by
      cases piece <;> rfl
    rw [charactersOf, kept, List.map_append, List.map_append, ← own, ← ih later]

theorem styledReset (style : Style) (tail : Tail) :
    styledFrom style .text (tail.text ++ Sgr.reset) = (leftover tail).map (·, style) := by
  cases tail with
  | none => rfl
  | escape => rfl
  | parameters body runs =>
    have opened : styledFrom style .text ((Tail.parameters body runs).text ++ Sgr.reset) =
        styledFrom style (.parameters []) (body ++ Sgr.reset) := by
      simp [Tail.text, styledFrom]
    rw [opened, styledBody [] runs]
    rfl

theorem plainOutput (pieces : List Piece) (tail : Tail) :
    (Render.line (written pieces ++ tail.text)).plain = (charactersOf Style.plain pieces).map Prod.fst := by
  rw [plainSpread, charactersLine, styled, styledRead]

theorem charactersError (pieces : List Piece) (tail : Tail) :
    characters (Render.line (dressed .error (written pieces ++ tail.text))) =
      charactersOf redStyle pieces ++ (leftover tail).map (·, styleAfter redStyle pieces) := by
  have opened : styled (dressed .error (written pieces ++ tail.text)) =
      styledFrom redStyle .text (written pieces ++ (tail.text ++ Sgr.reset)) := by
    simp only [dressed, styled, List.append_assoc]
    rfl
  rw [charactersLine, opened, styledWritten, styledReset]

theorem plainError (pieces : List Piece) (tail : Tail) :
    (Render.line (dressed .error (written pieces ++ tail.text))).plain =
      (charactersOf Style.plain pieces).map Prod.fst ++ leftover tail := by
  have unstyled : ((leftover tail).map (·, styleAfter redStyle pieces)).map Prod.fst = leftover tail := by
    cases tail <;> rfl
  rw [plainSpread, charactersError, List.map_append, unstyled, sameCharacters redStyle Style.plain]

theorem restyled (raw : Text) : Restyled raw (Render.line (dressed .output raw))
    (Render.line (dressed .error raw)) where
  sameText := by
    constructor
    · intro same
      obtain ⟨pieces, tail, rfl⟩ := readText raw
      rw [plainError, dressed, plainOutput] at same
      have nothing : leftover tail = [] := by simpa using same
      cases tail with
      | none => exact ⟨pieces, List.append_nil _⟩
      | escape | parameters => simp [leftover] at nothing
    · rintro ⟨pieces, rfl⟩
      have regular := plainOutput pieces .none
      have error := plainError pieces .none
      simp only [Tail.text, leftover, List.append_nil] at regular error
      rw [error, dressed, regular]
  moreText := by
    obtain ⟨pieces, tail, rfl⟩ := readText raw
    exact ⟨pieces, tail, rfl, by rw [plainError, dressed, plainOutput]⟩
  red := by
    rintro before after rfl still
    obtain ⟨pieces, tail, rfl⟩ := readText after
    have shown := plainOutput before .none
    rw [Tail.text, List.append_nil] at shown
    have plainly : (charactersOf Style.plain before).map Prod.fst = (charactersOf redStyle before).map Prod.fst :=
      sameCharacters _ _ _
    have whole : written before ++ (written pieces ++ tail.text) = written (before ++ pieces) ++ tail.text := by
      simp
    constructor
    · rw [shown, ← charactersStill still, dressed, charactersLine, styled, styledWritten]
      exact List.prefix_append _ _
    · rw [shown, plainly, ← charactersStill still, whole, charactersError, charactersAppend, List.append_assoc]
      exact List.prefix_append _ _

/- Regular output and errors have the same lines, and the same text in each but for what a sequence that does not
end makes of the reset. -/
theorem errorsRestyle (source : Text) :
    (Render.text .error source).length = (Render.text .output source).length ∧
    ∀ (n : Nat) (raw : Text), (rawLines source)[n]? = some raw → ∃ regular error,
      (Render.text .output source)[n]? = some regular ∧ (Render.text .error source)[n]? = some error ∧
        Restyled raw regular error := by
  refine ⟨by simp [Render.text], fun n raw found => ?_⟩
  refine ⟨_, _, ?_, ?_, restyled raw⟩
  · rw [textDressed, List.getElem?_map, found, Option.map_some]
  · rw [textDressed, List.getElem?_map, found, Option.map_some]

theorem errorsRestyleSelecting :
    let source : Text := "low \x1b[1mbold\ncut\x1b[4"
    (rawLines source)[1]? = some "cut\x1b[4".toList ∧ ∃ regular error,
      (Render.text .output source)[1]? = some regular ∧ (Render.text .error source)[1]? = some error ∧
        Restyled "cut\x1b[4" regular error := by
  intro source
  have found : (rawLines source)[1]? = some "cut\x1b[4".toList := by decide +kernel
  exact ⟨found, (errorsRestyle source).2 1 _ found⟩

theorem resetShown :
    (Render.text .output "cut\x1b[4").map Line.plain = ["cut".toList] ∧
      (Render.text .error "cut\x1b[4").map Line.plain = ["cut0m".toList] ∧
      (Render.text .output "cut\x1b").map Line.plain = ["cut".toList] ∧
      (Render.text .error "cut\x1b").map Line.plain = ["cut[0m".toList] := by
  decide +kernel

end ConsoleShell.ErrorLines
