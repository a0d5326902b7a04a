import ConsoleShell.Proofs.EscapedText

/-! Escaped text keeps its styles. Where no entity is torn, the escaped text falls into the same pieces, each
character written as its entity. Its sequences select what they selected before if no apostrophe, whose entity
holds a semicolon, cuts a parameter in two. -/
namespace ConsoleShell.EscapedRendering
open Markup Render Rendering EscapeGrammar StyledLines EscapedText

def spelled (items : List (Char × Style)) : List (Char × Style) :=
  items.flatMap fun (c, style) => (entity c).map (·, style)

def ApostrophesLast (body : Text) : Prop := ∀ field ∈ Text.fields ';' body, '\'' ∉ field.dropLast

def PieceSteady : Piece → Prop
  | .shown _ _ | .lone _ _ => True
  | .sequence body final _ _ => final = 'm' → ApostrophesLast body

/- A text whose escape sequences are the same when it is escaped. -/
def Settled (text : Text) : Prop :=
  ∃ pieces tail, text = written pieces ++ Tail.text tail ∧
    (∀ p ∈ pieces, PieceWhole p ∧ PieceSteady p) ∧ TailWhole tail

variable {body field : Text}

theorem codesAppend (a b : Text) :
    Style.readCodes (a ++ ';' :: b) = Style.readCodes a ++ Style.readCodes b := by
  simp [Style.readCodes, fieldsAppend]

theorem codeUnread {c : Char} (mem : c ∈ field) (noDigit : c.isDigit = false) (noPlus : c ≠ '+')
    (whole : ';' ∉ field) : Style.readCodes field = [0] := by
  have kept : c ∈ Whole.dropPlus field := by
    unfold Whole.dropPlus
    split
    · exact (List.mem_cons.mp mem).resolve_left noPlus
    · exact mem
  have refused : Whole.isNumeral (Whole.dropPlus field) = false := by
    have wordy : ¬ (Whole.dropPlus field).all Char.isDigit := fun all => by
      simp [List.all_eq_true.mp all c kept] at noDigit
    simp [Whole.isNumeral, wordy]
  have present : field ≠ [] := List.ne_nil_of_mem mem
  simp [Style.readCodes, fieldsFree whole, present, Whole.read?, refused]

theorem codesField (kept : ∀ c ∈ field, c ∉ cutting) (whole : ';' ∉ field) (last : '\'' ∉ field.dropLast) :
    Style.readCodes (escape field) = Style.readCodes field := by
  have plain {text : Text} (kept : ∀ c ∈ text, c ∉ cutting) (free : '\'' ∉ text) : escape text = text := by
    refine escapeOrdinary fun c mem listed => ?_
    obtain rfl : c = '\'' := (cutsOrApostrophe listed).resolve_left (kept c mem)
    exact free mem
  by_cases apostrophe : '\'' ∈ field
  · rcases List.eq_nil_or_concat field with rfl | ⟨front, final, rfl⟩
    · simp at apostrophe
    · rw [List.concat_eq_append] at *
      rw [List.dropLast_concat] at last
      obtain rfl : '\'' = final := by simpa [last] using apostrophe
      have frontKept := (List.forall_mem_append.mp kept).1
      have frontWhole : ';' ∉ front := fun mem => whole (List.mem_append_left _ mem)
      -- unreadable either way, and the field behind the semicolon is empty
      have written : escape (front ++ ['\'']) = (front ++ "&#39") ++ ';' :: [] := by
        rw [escapeAppend, plain frontKept last, List.append_assoc]
        rfl
      have entityUnread : Style.readCodes (front ++ "&#39") = [0] :=
        codeUnread (c := '&') (by simp) rfl (by decide) (by simp [frontWhole])
      rw [written, codesAppend, entityUnread, codeUnread apostrophe rfl (by decide) whole]
      rfl
  · rw [plain kept apostrophe]

theorem codesEscaped (kept : ∀ c ∈ body, c ∉ cutting) (last : ApostrophesLast body) :
    Style.readCodes (escape body) = Style.readCodes body := by
  -- from one semicolon to the next
  induction size : body.length using Nat.strong_induction_on generalizing body with
  | _ n ih =>
    by_cases present : ';' ∈ body
    · obtain ⟨first, rest, rfl, absent⟩ := List.eq_append_cons_of_mem present
      have shorter : rest.length < n := by
        simp at size
        omega
      obtain ⟨keptFirst, keptRest⟩ := List.forall_mem_append.mp kept
      rw [ApostrophesLast, fieldsCut absent] at last
      obtain ⟨lastFirst, lastRest⟩ := List.forall_mem_cons.mp last
      have later := ih _ shorter (fun c mem => keptRest c (List.mem_cons_of_mem _ mem)) lastRest rfl
      have semicolon : escape (first ++ ';' :: rest) = escape first ++ ';' :: escape rest := by
        rw [escapeAppend]
        rfl
      rw [semicolon, codesAppend, codesAppend, codesField keptFirst absent lastFirst, later]
    · rw [ApostrophesLast, fieldsFree present] at last
      exact codesField kept present (last body List.mem_cons_self)

theorem bodyRuns (runs : ∀ c ∈ body, endsSequence c = false) (kept : ∀ c ∈ body, c ∉ cutting) :
    ∀ c ∈ escape body, endsSequence c = false := by
  intro c mem
  obtain ⟨d, listed, inside⟩ := List.mem_flatMap.mp mem
  exact entityRuns (runs d listed) (kept d listed) c inside

theorem styledEscaped {piece : Piece} (whole : PieceWhole piece) (steady : PieceSteady piece) (style : Style)
    (rest : Text) : styledFrom style .text (escape piece.text ++ rest) =
      spelled (piece.characters style) ++ styledFrom (piece.select style) .text rest := by
  cases piece with
  | shown c ordinary =>
    have text : escape (Piece.shown c ordinary).text = entity c := List.append_nil _
    have items : spelled ((Piece.shown c ordinary).characters style) = (entity c).map (·, style) :=
      List.append_nil _
    rw [text, items, styledCalm style (entityCalm ordinary)]
    rfl
  | lone selector alone =>
    have text : escape (Piece.lone selector alone).text = (Piece.lone selector alone).text := by
      refine escapeOrdinary fun c mem => ?_
      rcases List.mem_pair.mp mem with rfl | rfl
      · decide
      · exact whole
    rw [text, styledPiece]
    rfl
  | sequence body final runs ends =>
    have plain : final ∉ special := fun listed => by simp [specialRuns final listed] at ends
    have text : escape (Piece.sequence body final runs ends).text =
        (Piece.sequence (escape body) final (bodyRuns runs whole) ends).text := by
      show entity escapeCharacter ++ (entity '[' ++ escape (body ++ [final])) = _
      rw [escapeAppend, escapeCons final, entityPlain plain]
      rfl
    have selects : (Piece.sequence (escape body) final (bodyRuns runs whole) ends).select style =
        (Piece.sequence body final runs ends).select style := by
      by_cases selecting : final = 'm'
      · simp [Piece.select, selecting, codesEscaped whole (steady selecting)]
      · simp [Piece.select, selecting]
    rw [text, styledPiece, selects]
    rfl

theorem styledEscapedTail {tail : Tail} (whole : TailWhole tail) (style : Style) :
    styledFrom style .text (escape tail.text) = [] := by
  cases tail with
  | none => rfl
  | escape => rfl
  | parameters body runs => exact styledTail style (.parameters (escape body) (bodyRuns runs whole))

theorem spelledAppend (a b : List (Char × Style)) : spelled (a ++ b) = spelled a ++ spelled b :=
  List.flatMap_append

theorem styledSettled {pieces : List Piece} {tail : Tail}
    (settled : ∀ p ∈ pieces, PieceWhole p ∧ PieceSteady p) (whole : TailWhole tail) (style : Style) :
    styledFrom style .text (escape (written pieces ++ tail.text)) = spelled (charactersOf style pieces) := by
  induction pieces generalizing style with
  | nil => exact styledEscapedTail whole style
  | cons piece rest ih =>
    obtain ⟨⟨first, steady⟩, later⟩ := List.forall_mem_cons.mp settled
    rw [writtenCons, List.append_assoc, escapeAppend, styledEscaped first steady, ih later, charactersOf,
      spelledAppend]

/- Reading the entities back restores the text exactly if none is torn; the characters keep their styles if no
parameter is cut. -/
theorem escapingKeeps (text : Text) :
    (unescape (Render.line (escape text)).plain = (Render.line text).plain ↔ Untorn text) ∧
    (Settled text → characters (Render.line (escape text)) = spelled (characters (Render.line text))) := by
  refine ⟨restoredIff text, ?_⟩
  rintro ⟨pieces, tail, rfl, settled, whole⟩
  rw [charactersLine, charactersLine, styled, styled, styledSettled settled whole, styledRead]

theorem escapingKeepsSelecting :
    let text : Text := "a<\x1b[1;31m'\x1b[2Kb"
    Untorn text ∧ Settled text ∧ unescape (Render.line (escape text)).plain = "a<'b".toList ∧
      characters (Render.line (escape text)) = spelled (characters (Render.line text)) := by
  intro text
  obtain ⟨restores, keeps⟩ := escapingKeeps text
  let pieces : List Piece :=
    [.shown 'a' (by decide), .shown '<' (by decide), .sequence "1;31" 'm' (by simp [endsSequence]) rfl,
      .shown '\'' (by decide), .sequence ['2'] 'K' (by simp [endsSequence]) rfl, .shown 'b' (by decide)]
  have whole : ∀ p ∈ pieces, PieceWhole p := by simp [pieces, PieceWhole, cutting]
  have steady : ∀ p ∈ pieces, PieceSteady p := by
    have last : ApostrophesLast ['1', ';', '3', '1'] := by
      unfold ApostrophesLast
      decide
    simp [pieces, PieceSteady, last]
  have untorn : Untorn text := ⟨pieces, .none, rfl, whole, trivial⟩
  have settled : Settled text := ⟨pieces, .none, rfl, fun p mem => ⟨whole p mem, steady p mem⟩, trivial⟩
  have shown : (Render.line text).plain = "a<'b".toList := by
    rw [shownPlain]
    decide
  exact ⟨untorn, settled, (restores.mpr untorn).trans shown, keeps settled⟩

theorem entitiesIntrude :
    let report : Text := "\x1b[<0;1;2Mx"
    let selection : Text := "\x1b['2mx"
    ((Render.line report).plain = ['x'] ∧ unescape (Render.line (escape report)).plain = "t;0;1;2Mx") ∧
      characters (Render.line selection) = [('x', Style.plain)] ∧
      characters (Render.line (escape selection)) = [('x', { dim := true })] := by
  intro report selection
  rw [restoredLine, shownPlain, charactersLine, charactersLine]
  decide +kernel

end ConsoleShell.EscapedRendering
