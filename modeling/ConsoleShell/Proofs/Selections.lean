import ConsoleShell.Proofs.StyledLines

/-! Sequences that select a style. Their parameters act one after another, so a list of them is worth as many
sequences of one. Only the description of an extended colour holds together, and it changes nothing. A reset cuts
the line: what stands behind it is rendered as a line of its own. -/
namespace ConsoleShell.Selections
open Render Rendering EscapeGrammar StyledLines

structure Parameter where
  digits : Text
  present : digits ≠ []
  decimal : ∀ c ∈ digits, c.isDigit = true

namespace Parameter

def number (p : Parameter) : Nat := Whole.value p.digits

def code (p : Parameter) : Nat := if p.number < 65536 then p.number else 0

end Parameter

def zero : Parameter := ⟨['0'], by simp, List.all_eq_true.mp rfl⟩

def parametersText (ps : List Parameter) : Text := Text.join [';'] (ps.map Parameter.digits)

def selection (ps : List Parameter) : Text := "\x1b[" ++ parametersText ps ++ ['m']

inductive ExtendedColor : List Parameter → Prop where
  | indexed {ground kind index : Parameter} (extended : ground.number = 38 ∨ ground.number = 48)
      (isIndexed : kind.number = 5) : ExtendedColor [ground, kind, index]
  | mixed {ground kind red green blue : Parameter} (extended : ground.number = 38 ∨ ground.number = 48)
      (isMixed : kind.number = 2) : ExtendedColor [ground, kind, red, green, blue]

inductive Complete : List Parameter → Prop where
  | nil : Complete []
  | single {p ps} (foreground : p.number ≠ 38) (background : p.number ≠ 48) (later : Complete ps) :
      Complete (p :: ps)
  | color {description ps} (extended : ExtendedColor description) (later : Complete ps) :
      Complete (description ++ ps)

variable {p : Parameter} {ps description : List Parameter} {style : Style}

theorem fieldsJoined {separator : Char} {words : List Text} (free : ∀ w ∈ words, separator ∉ w)
    (nonempty : words ≠ []) : Text.fields separator (Text.join [separator] words) = words := by
  unfold Text.join
  induction words with
  | nil => contradiction
  | cons w rest ih =>
    obtain ⟨first, later⟩ := List.forall_mem_cons.mp free
    cases rest with
    | nil => simpa using fieldsFree first
    | cons v more =>
      rw [List.intercalate_cons_cons, List.append_assoc, List.singleton_append, fieldsCut first,
        ih later (List.cons_ne_nil v more)]

theorem digitOther {c d : Char} (digit : c.isDigit = true) (other : d.isDigit = false) : c ≠ d := by
  rintro rfl
  rw [digit] at other
  contradiction

theorem codeRead (p : Parameter) : (Whole.read? 65536 p.digits).getD 0 = p.code := by
  obtain ⟨digits, present, decimal⟩ := p
  have unsigned : Whole.dropPlus digits = digits := by
    obtain ⟨c, rest, rfl⟩ := List.exists_cons_of_ne_nil present
    have other := digitOther (decimal c List.mem_cons_self) (d := '+') rfl
    unfold Whole.dropPlus
    split
    · rename_i same
      exact absurd (List.cons_eq_cons.mp same).1 other
    · rfl
  have numeral : Whole.isNumeral digits = true := by
    simpa [Whole.isNumeral, present] using decimal
  by_cases small : Whole.value digits < 65536 <;>
    simp [Whole.read?, Parameter.code, Parameter.number, unsigned, numeral, small]

theorem codesRead (ps : List Parameter) : Style.readCodes (parametersText ps) = ps.map Parameter.code := by
  have unbroken : ∀ w ∈ ps.map Parameter.digits, ';' ∉ w := by
    intro w mem inside
    obtain ⟨p, -, rfl⟩ := List.mem_map.mp mem
    exact digitOther (p.decimal ';' inside) rfl rfl
  have kept : (ps.map Parameter.digits).filter (fun field => !field.isEmpty) = ps.map Parameter.digits := by
    rw [List.filter_eq_self]
    intro w mem
    obtain ⟨p, -, rfl⟩ := List.mem_map.mp mem
    simp [p.present]
  unfold Style.readCodes parametersText
  cases ps with
  | nil => rfl
  | cons p ps =>
    rw [fieldsJoined unbroken (by simp), kept, List.map_map]
    exact List.map_congr_left fun p _ => codeRead p

theorem parametersRun (ps : List Parameter) : ∀ c ∈ parametersText ps, endsSequence c = false := by
  unfold parametersText Text.join
  induction ps with
  | nil => simp
  | cons p rest ih =>
    have first : ∀ c ∈ p.digits, endsSequence c = false := fun c mem => digitRuns (p.decimal c mem)
    cases rest with
    | nil => simpa using first
    | cons q more =>
      rw [List.map_cons, List.map_cons, List.intercalate_cons_cons]
      exact List.forall_mem_append.mpr ⟨eachAdded first rfl, ih⟩

def piece (ps : List Parameter) : Piece := .sequence (parametersText ps) 'm' (parametersRun ps) rfl

theorem pieceText (ps : List Parameter) : (piece ps).text = selection ps := by
  simp [piece, Piece.text, selection, escapeCharacter]

theorem pieceSelects (ps : List Parameter) (style : Style) :
    (piece ps).select style = style.selectAll (ps.map Parameter.code) := by
  simp [piece, Piece.select, codesRead]

theorem codeSmall (p : Parameter) {n : Nat} (other : p.number ≠ n) (nonzero : n ≠ 0) : p.code ≠ n := by
  unfold Parameter.code
  split
  · exact other
  · exact nonzero.symm

theorem codeEqual (p : Parameter) {n : Nat} (same : p.number = n) (small : n < 65536) : p.code = n := by
  rw [Parameter.code, same, if_pos small]

theorem selectDescribed (extended : ExtendedColor ps) (style : Style) (later : List Nat) :
    style.selectEach (ps.map Parameter.code ++ later) = style.selectEach later := by
  have announces {p : Parameter} (extended : p.number = 38 ∨ p.number = 48) :
      Style.isExtended p.code = true := by
    rcases extended with same | same <;> simp [Style.isExtended, codeEqual p same]
  cases extended with
  | indexed extended isIndexed => simp [Style.selectEach, announces extended, codeEqual _ isIndexed]
  | mixed extended isMixed => simp [Style.selectEach, announces extended, codeEqual _ isMixed]

theorem selectSingle (foreground : p.number ≠ 38) (background : p.number ≠ 48) (style : Style)
    (later : List Nat) : style.selectEach (p.code :: later) = (style.select p.code).selectEach later := by
  have single : Style.isExtended p.code = false := by
    simp [Style.isExtended, codeSmall p foreground, codeSmall p background]
  rw [Style.selectEach.eq_def]
  simp [single]

theorem selectComplete (complete : Complete ps) (style : Style) (later : List Nat) :
    style.selectEach (ps.map Parameter.code ++ later) =
      (style.selectEach (ps.map Parameter.code)).selectEach later := by
  induction complete generalizing style with
  | nil => rfl
  | single foreground background rest ih =>
    rw [List.map_cons, List.cons_append, selectSingle foreground background, ih,
      selectSingle foreground background]
  | color extended rest ih =>
    rw [List.map_append, List.append_assoc, selectDescribed extended, selectDescribed extended, ih]

theorem selectAllSome (nonempty : ps ≠ []) (style : Style) :
    style.selectAll (ps.map Parameter.code) = style.selectEach (ps.map Parameter.code) := by
  simp [Style.selectAll, nonempty]

variable {pre : Text}

/- Pieces that show nothing matter only for the style behind them. -/
theorem sameBehind (outside : EndsOutside pre) {a b : List Piece}
    (shown : ∀ style, charactersOf style a = charactersOf style b)
    (behind : ∀ style, styleAfter style a = styleAfter style b) (post : Text) :
    Render.line (pre ++ written a ++ post) = Render.line (pre ++ written b ++ post) := by
  obtain ⟨pieces, rfl⟩ := outside
  have styled (c : List Piece) : Render.styled (written pieces ++ written c ++ post) =
      charactersOf Style.plain pieces ++ (charactersOf (styleAfter Style.plain pieces) c ++
        styledFrom (styleAfter (styleAfter Style.plain pieces) c) .text post) := by
    rw [Render.styled, List.append_assoc, styledWritten, styledWritten]
  unfold Render.line
  rw [styled, styled, shown, behind]

theorem selectionsSilent (groups : List (List Parameter)) (style : Style) :
    charactersOf style (groups.map piece) = [] := by
  induction groups generalizing style with
  | nil => rfl
  | cons ps rest ih => exact ih ((piece ps).select style)

theorem selectionsWritten (groups : List (List Parameter)) :
    written (groups.map piece) = groups.flatMap selection := by
  simp [written, List.flatMap_map, pieceText]

theorem sameSelections (outside : EndsOutside pre) {a b : List (List Parameter)}
    (behind : ∀ style, styleAfter style (a.map piece) = styleAfter style (b.map piece)) (post : Text) :
    Render.line (pre ++ a.flatMap selection ++ post) = Render.line (pre ++ b.flatMap selection ++ post) := by
  rw [← selectionsWritten, ← selectionsWritten]
  refine sameBehind outside (fun style => ?_) behind post
  rw [selectionsSilent, selectionsSilent]

theorem styleSingles (single : ∀ p ∈ ps, p.number ≠ 38 ∧ p.number ≠ 48) (style : Style) :
    styleAfter style ((ps.map ([·])).map piece) = style.selectEach (ps.map Parameter.code) := by
  induction ps generalizing style with
  | nil => rfl
  | cons p rest ih =>
    obtain ⟨⟨foreground, background⟩, later⟩ := List.forall_mem_cons.mp single
    have first : (piece [p]).select style = style.select p.code := by
      rw [pieceSelects, selectAllSome (List.cons_ne_nil p []), List.map_cons,
        selectSingle foreground background]
      rfl
    calc styleAfter style (((p :: rest).map ([·])).map piece)
        = styleAfter ((piece [p]).select style) ((rest.map ([·])).map piece) := rfl
      _ = (style.select p.code).selectEach (rest.map Parameter.code) := by rw [first, ih later]
      _ = style.selectEach ((p :: rest).map Parameter.code) := by
        rw [List.map_cons, selectSingle foreground background]

theorem styleSome (nonempty : ps ≠ []) (style : Style) :
    styleAfter style ([ps].map piece) = style.selectEach (ps.map Parameter.code) :=
  (pieceSelects ps style).trans (selectAllSome nonempty style)

theorem singlesCompose (outside : EndsOutside pre) (nonempty : ps ≠ [])
    (single : ∀ p ∈ ps, p.number ≠ 38 ∧ p.number ≠ 48) (post : Text) :
    Render.line (pre ++ selection ps ++ post) =
      Render.line (pre ++ ps.flatMap (fun p => selection [p]) ++ post) := by
  have same := sameSelections outside (a := [ps]) (b := ps.map ([·])) (fun style => by
    rw [styleSome nonempty, styleSingles single]) post
  simpa [List.flatMap_map] using same

theorem colorSilent (outside : EndsOutside pre) (color : ExtendedColor ps) (post : Text) :
    Render.line (pre ++ selection ps ++ post) = Render.line (pre ++ post) := by
  have nonempty : ps ≠ [] := by cases color <;> simp
  have same := sameSelections outside (a := [ps]) (b := []) (fun style => by
    have passed := selectDescribed color style []
    rw [List.append_nil] at passed
    rw [styleSome nonempty, passed]
    rfl) post
  simpa using same

theorem colorWithin (outside : EndsOutside pre) {before after : List Parameter}
    (color : ExtendedColor ps) (complete : Complete before) (others : before ++ after ≠ []) (post : Text) :
    Render.line (pre ++ selection (before ++ ps ++ after) ++ post) =
      Render.line (pre ++ selection (before ++ after) ++ post) := by
  have nonempty : before ++ ps ++ after ≠ [] := by cases color <;> simp
  have same := sameSelections outside (a := [before ++ ps ++ after]) (b := [before ++ after]) (fun style => by
    rw [styleSome nonempty, styleSome others, List.append_assoc, List.map_append, List.map_append,
      selectComplete complete, selectDescribed color, List.map_append, selectComplete complete]) post
  simpa using same

theorem resetJoins (outside : EndsOutside pre) (reset : Piece)
    (resets : ∀ style, reset.select style = Style.plain) (silent : ∀ style, reset.characters style = [])
    (post : Text) :
    Render.line (pre ++ reset.text ++ post) = joined (Render.line pre) (Render.line post) := by
  obtain ⟨pieces, rfl⟩ := outside
  obtain ⟨later, tail, rfl⟩ := readText post
  have before : styled (written pieces) = charactersOf Style.plain pieces := by
    simpa [Tail.text, styled] using styledRead Style.plain pieces .none
  have whole : styled (written pieces ++ reset.text ++ (written later ++ tail.text)) =
      charactersOf Style.plain pieces ++ charactersOf Style.plain later := by
    rw [styled, List.append_assoc, styledWritten, styledPiece, resets, silent, styledRead]
    rfl
  unfold Render.line
  rw [whole, before, styled, styledRead]
  exact madeJoined (characterOrdinary _ _) (characterOrdinary _ _)

theorem selectionsCompose (outside : EndsOutside pre) (post : Text) :
    (∀ ps : List Parameter, ps ≠ [] → (∀ p ∈ ps, p.number ≠ 38 ∧ p.number ≠ 48) →
      Render.line (pre ++ selection ps ++ post) =
        Render.line (pre ++ ps.flatMap (fun p => selection [p]) ++ post)) ∧
    (∀ color, ExtendedColor color →
      Render.line (pre ++ selection color ++ post) = Render.line (pre ++ post) ∧
      ∀ before after, Complete before → before ++ after ≠ [] →
        Render.line (pre ++ selection (before ++ color ++ after) ++ post) =
          Render.line (pre ++ selection (before ++ after) ++ post)) ∧
    ∀ reset ∈ ["\x1b[m".toList, Sgr.reset],
      Render.line (pre ++ reset ++ post) = joined (Render.line pre) (Render.line post) := by
  refine ⟨fun ps nonempty single => singlesCompose outside nonempty single post, fun color extended =>
    ⟨colorSilent outside extended post, fun before after complete others =>
      colorWithin outside extended complete others post⟩, fun reset listed => ?_⟩
  simp only [List.mem_cons, List.not_mem_nil, or_false] at listed
  rcases listed with rfl | rfl
  · exact resetJoins outside (piece []) (fun _ => rfl) (fun _ => rfl) post
  · exact resetJoins outside (piece [zero]) (fun _ => rfl) (fun _ => rfl) post

theorem selectionsComposeMixed :
    let pre : Text := "ok\x1b[1m"
    EndsOutside pre ∧
      Render.line (pre ++ "\x1b[4;31m" ++ "red") = Render.line (pre ++ "\x1b[4m\x1b[31m" ++ "red") ∧
      Render.line (pre ++ "\x1b[4;38;5;200;31m" ++ "red") = Render.line (pre ++ "\x1b[4;31m" ++ "red") ∧
      Render.line (pre ++ "\x1b[m" ++ "red") = joined (Render.line pre) (Render.line "red") := by
  intro pre
  have outside : EndsOutside pre :=
    ⟨[.shown 'o' (by decide), .shown 'k' (by decide), .sequence ['1'] 'm' (by simp [endsSequence]) rfl], rfl⟩
  let underline : Parameter := ⟨"4", by simp, List.all_eq_true.mp rfl⟩
  let red : Parameter := ⟨"31", by simp, List.all_eq_true.mp rfl⟩
  let foreground : Parameter := ⟨"38", by simp, List.all_eq_true.mp rfl⟩
  let indexed : Parameter := ⟨"5", by simp, List.all_eq_true.mp rfl⟩
  let index : Parameter := ⟨"200", by simp, List.all_eq_true.mp rfl⟩
  obtain ⟨singles, colors, resets⟩ := selectionsCompose outside "red"
  have described : ExtendedColor [foreground, indexed, index] := .indexed (.inl rfl) rfl
  have complete : Complete [underline] := .single (by decide) (by decide) .nil
  exact ⟨outside, singles [underline, red] (by simp) (by decide),
    (colors _ described).2 [underline] [red] complete (by simp), resets _ List.mem_cons_self⟩

end ConsoleShell.Selections
