import ConsoleShell.Output.Buffer
import ConsoleShell.Proofs.Basic
import ConsoleShell.Proofs.Entity

/-! Rendering of inert text. An escape sequence that is dropped may take a piece of an entity with
it, but always from the front, so what is left of the entity is plain. Entities never straddle two
styles or two lines; hence every segment is inert by itself, and a line of markup has no tags but
the spans that the renderer writes around its segments. -/
namespace ConsoleShell.Rendering
open Markup Render

theorem entitiesCalm : ∀ e ∈ entities, e ≠ [] ∧ escapeCharacter ∉ e := by decide

theorem lineFeedForeign : ∀ e ∈ entities, '\n' ∉ e := by decide

theorem carriageForeign : ∀ e ∈ entities, '\r' ∉ e := by decide

theorem styledCalm (style : Style) {chunk : Text} (calm : escapeCharacter ∉ chunk) (rest : Text) :
    styledFrom style .text (chunk ++ rest) =
      chunk.map (·, style) ++ styledFrom style .text rest := by
  induction chunk with
  | nil => rfl
  | cons c later ih =>
    obtain ⟨other, calm⟩ : escapeCharacter ≠ c ∧ escapeCharacter ∉ later := by simpa using calm
    rw [List.cons_append, styledFrom, if_neg (Ne.symm other), ih calm]
    rfl

/- Styled characters in which every ampersand begins an entity of one style. -/
inductive Whole : List (Char × Style) → Prop where
  | nil : Whole []
  | plain {c style rest} (ordinary : c ∉ special) (calm : c ≠ escapeCharacter)
      (next : Whole rest) : Whole ((c, style) :: rest)
  | entity {e : Text} {style rest} (listed : e ∈ entities)
      (next : Whole rest) : Whole (e.map (·, style) ++ rest)

theorem styledWhole (style : Style) (state : EscapeState) {text : Text} (h : Inert text) :
    Whole (styledFrom style state text) := by
  match text, state with
  | [], _ => cases state <;> exact .nil
  | c :: rest, .escape =>
    have tail := h.2.2
    simp only [styledFrom]
    split <;> exact styledWhole _ _ tail
  | c :: rest, .parameters body =>
    have tail := h.2.2
    simp only [styledFrom]
    split
    · exact styledWhole _ _ tail
    · split <;> exact styledWhole _ _ tail
  | c :: rest, .text =>
    by_cases ampersand : c = '&'
    · obtain ⟨e, listed, later, whole⟩ := h.2.1 ampersand
      obtain ⟨nonempty, calm⟩ := entitiesCalm e listed
      have shorter : later.length < rest.length + 1 := by
        have positive := List.length_pos_iff.mpr nonempty
        rw [← List.length_cons, ← whole, List.length_append]
        omega
      rw [← whole] at h ⊢
      rw [styledCalm style calm]
      exact .entity listed (styledWhole _ _ (inertDrop h))
    · obtain ⟨allowed, -, tail⟩ := h
      simp only [styledFrom]
      split
      · exact styledWhole _ _ tail
      · rename_i calm
        refine .plain ?_ calm (styledWhole _ _ tail)
        simp only [List.mem_cons, not_or] at allowed
        simp [special, allowed, ampersand]
termination_by text.length
decreasing_by all_goals (simp only [List.length_cons]; omega)

def pushRun (segments : List Segment) (style : Style) (run : Text) : List Segment :=
  match segments.getLast? with
  | some last =>
    if last.style = style then segments.dropLast ++ [{ last with text := last.text ++ run }]
    else segments ++ [⟨run, style⟩]
  | none => segments ++ [⟨run, style⟩]

theorem pushRunStep (segments : List Segment) (style : Style) (run : Text) (c : Char) :
    Line.push (pushRun segments style run) style c = pushRun segments style (run ++ [c]) := by
  unfold pushRun
  split
  · split <;> simp [Line.push, *]
  · simp [Line.push]

def pushAll (segments : List Segment) (characters : List (Char × Style)) : List Segment :=
  characters.foldl (fun segments (c, style) => Line.push segments style c) segments

theorem pushAllCons (segments : List Segment) (c : Char) (style : Style)
    (rest : List (Char × Style)) :
    pushAll segments ((c, style) :: rest) = pushAll (Line.push segments style c) rest := rfl

theorem pushAllAppend (segments : List Segment) (a b : List (Char × Style)) :
    pushAll segments (a ++ b) = pushAll (pushAll segments a) b := by
  simp [pushAll]

theorem pushFirst (segments : List Segment) (style : Style) (c : Char) :
    Line.push segments style c = pushRun segments style [c] := by
  unfold Line.push pushRun
  split <;> simp_all

theorem pushAllRun (segments : List Segment) (style : Style) (c : Char) (run : Text) :
    pushAll segments ((c :: run).map (·, style)) = pushRun segments style (c :: run) := by
  have later (done rest : Text) :
      pushAll (pushRun segments style done) (rest.map (·, style)) =
        pushRun segments style (done ++ rest) := by
    induction rest generalizing done with
    | nil => simp [pushAll]
    | cons d rest ih =>
      rw [List.map_cons, pushAllCons, pushRunStep, ih]
      simp
  rw [List.map_cons, pushAllCons, pushFirst, later]
  rfl

def Harmless (s : Segment) : Prop := Inert s.text ∧ escapeCharacter ∉ s.text

theorem pushRunHarmless {segments : List Segment} (h : ∀ s ∈ segments, Harmless s) (style : Style)
    {run : Text} (inert : Inert run) (calm : escapeCharacter ∉ run) :
    ∀ s ∈ pushRun segments style run, Harmless s := by
  unfold pushRun
  split
  · rename_i last isLast
    have before := h last (List.mem_of_getLast? isLast)
    split
    · refine eachAdded (fun s earlier => h s (List.dropLast_subset _ earlier)) ?_
      exact ⟨inertAppend before.1 inert, by simp [before.2, calm]⟩
    · exact eachAdded h ⟨inert, calm⟩
  · exact eachAdded h ⟨inert, calm⟩

theorem pushAllHarmless {characters : List (Char × Style)} (whole : Whole characters)
    {segments : List Segment} (h : ∀ s ∈ segments, Harmless s) :
    ∀ s ∈ pushAll segments characters, Harmless s := by
  induction whole generalizing segments with
  | nil => exact h
  | @plain c style rest ordinary calm next ih =>
    rw [pushAllCons, pushFirst]
    exact ih (pushRunHarmless h style (inertPlain (by simpa using ordinary))
      (by simpa using calm.symm))
  | @entity e style rest listed next ih =>
    obtain ⟨nonempty, calm⟩ := entitiesCalm e listed
    obtain ⟨c, run, rfl⟩ := List.exists_cons_of_ne_nil nonempty
    rw [pushAllAppend, pushAllRun]
    have inert : ∀ e ∈ entities, Inert e := by decide
    exact ih (pushRunHarmless h style (inert _ listed) calm)

theorem lineHarmless {text : Text} (h : Inert text) : ∀ s ∈ (Render.line text).segments, Harmless s :=
  pushAllHarmless (styledWhole Style.plain .text h) (by simp)

theorem fieldsFree {separator : Char} {text : Text} (absent : separator ∉ text) :
    Text.fields separator text = [text] := by
  induction text with
  | nil => rfl
  | cons c rest ih =>
    obtain ⟨other, absent⟩ : separator ≠ c ∧ separator ∉ rest := by simpa using absent
    rw [Text.fields, if_neg (Ne.symm other), ih absent]

theorem fieldsAppend (separator : Char) (before after : Text) :
    Text.fields separator (before ++ separator :: after) =
      Text.fields separator before ++ Text.fields separator after := by
  induction before with
  | nil => simp [Text.fields]
  | cons c rest ih =>
    rw [List.cons_append, Text.fields, Text.fields, ih]
    split
    · rfl
    · obtain ⟨first, others, whole⟩ := List.exists_cons_of_ne_nil (Text.fieldsNonempty separator rest)
      rw [whole]
      rfl

theorem fieldsCut {separator : Char} {before : Text} (absent : separator ∉ before) (after : Text) :
    Text.fields separator (before ++ separator :: after) =
      before :: Text.fields separator after := by
  rw [fieldsAppend, fieldsFree absent]
  rfl

theorem inertFields {separator : Char} (foreign : ∀ e ∈ entities, separator ∉ e) {text : Text}
    (h : Inert text) : ∀ field ∈ Text.fields separator text, Inert field := by
  by_cases present : separator ∈ text
  · obtain ⟨before, after, whole, absent⟩ := List.eq_append_cons_of_mem present
    have shorter : after.length < text.length := by simp [whole]; omega
    rw [whole] at h ⊢
    obtain ⟨left, right⟩ := inertCut foreign h
    rw [fieldsCut absent]
    intro field mem
    rcases List.mem_cons.mp mem with rfl | mem
    · exact left
    · exact inertFields foreign right field mem
  · rw [fieldsFree present]
    simpa using h
termination_by text.length

theorem inertDropLast {c : Char} (foreign : ∀ e ∈ entities, c ∉ e) {text : Text} (h : Inert text) :
    Inert (Text.dropLastIf c text) := by
  unfold Text.dropLastIf Text.dropEnd?
  split
  · rename_i ends
    obtain ⟨before, rfl⟩ := List.isSuffixOf_iff_suffix.mp ends
    simpa using (inertCut foreign h).1
  · exact h

theorem rawLinesInert {text : Text} (h : Inert text) : ∀ raw ∈ rawLines text, Inert raw := by
  have ended := inertDropLast lineFeedForeign h
  intro raw mem
  obtain ⟨field, found, rfl⟩ := List.mem_map.mp mem
  exact inertDropLast carriageForeign (inertFields lineFeedForeign ended field found)

@[simp] theorem redInert : Inert Sgr.red := by decide

@[simp] theorem resetInert : Inert Sgr.reset := by decide

theorem textHarmless (kind : OutputKind) {source : Text} (h : Inert source) :
    ∀ l ∈ Render.text kind source, ∀ s ∈ l.segments, Harmless s := by
  intro l mem
  obtain ⟨raw, found, rfl⟩ := List.mem_map.mp mem
  have inert := rawLinesInert h raw found
  cases kind with
  | output => exact lineHarmless inert
  | error => exact lineHarmless (inertAppend (inertAppend redInert inert) resetInert)

theorem plainCalm {text : Text} (calm : escapeCharacter ∉ text) :
    (Render.line text).plain = text := by
  have unstyled : styled text = text.map (·, Style.plain) := by
    simpa [styledFrom, styled] using styledCalm Style.plain calm []
  have segments : (Render.line text).segments = pushAll [] (text.map (·, Style.plain)) := by
    rw [Render.line, unstyled]
    rfl
  unfold Line.plain
  rw [segments]
  cases text with
  | nil => rfl
  | cons c rest =>
    rw [pushAllRun]
    simp [pushRun]

def tagsFrom (tag : Option Text) : Text → List Text
  | [] => tag.toList
  | c :: rest =>
    match tag with
    | none => if c = '<' then tagsFrom (some ['<']) rest else tagsFrom none rest
    | some begun =>
      if c = '>' then (begun ++ ['>']) :: tagsFrom none rest else tagsFrom (some (begun ++ [c])) rest

def tags (text : Text) : List Text := tagsFrom none text

def spans (s : Segment) : List Text :=
  if s.style = Style.plain then []
  else ["<span class=\"" ++ Text.join [' '] s.style.classes ++ "\">", "</span>"]

theorem tagsOutside {chunk : Text} (free : '<' ∉ chunk) (rest : Text) :
    tagsFrom none (chunk ++ rest) = tagsFrom none rest := by
  induction chunk with
  | nil => rfl
  | cons c later ih =>
    obtain ⟨other, free⟩ : '<' ≠ c ∧ '<' ∉ later := by simpa using free
    simp [tagsFrom, Ne.symm other, ih free]

theorem tagsInside (begun : Text) {chunk : Text} (free : '>' ∉ chunk) (rest : Text) :
    tagsFrom (some begun) (chunk ++ '>' :: rest) = (begun ++ chunk ++ ['>']) :: tagsFrom none rest := by
  induction chunk generalizing begun with
  | nil => simp [tagsFrom]
  | cons c later ih =>
    obtain ⟨other, free⟩ : '>' ≠ c ∧ '>' ∉ later := by simpa using free
    simp [tagsFrom, Ne.symm other, ih (begun ++ [c]) free]

theorem tagsOpened {chunk : Text} (free : '>' ∉ chunk) (rest : Text) :
    tagsFrom none ('<' :: (chunk ++ '>' :: rest)) = ('<' :: (chunk ++ ['>'])) :: tagsFrom none rest := by
  have inside := tagsInside ['<'] free rest
  simpa [tagsFrom] using inside

theorem inertAbsent {text : Text} (h : Inert text) {c : Char}
    (raw : c ∈ ['<', '>', '"', '\'']) : c ∉ text :=
  fun mem => (inertSpelled h).1 c mem raw

theorem shadeInert (ground : Text) (inert : Inert ground) (color : Color) :
    Inert (ground ++ color.name) := by
  have names : ∀ color : Color, Inert color.name := by intro color; cases color <;> decide
  exact inertAppend inert (names color)

theorem classesInert (style : Style) : ∀ name ∈ style.classes, Inert name := by
  intro name mem
  simp only [Style.classes, List.mem_append] at mem
  rcases mem with ((((mem | mem) | mem) | mem) | mem) | mem
  all_goals split at mem <;> simp only [List.mem_singleton, List.not_mem_nil] at mem
  all_goals subst mem
  · decide
  · decide
  · decide
  · decide
  · split <;> exact shadeInert _ (by decide) _
  · split <;> exact shadeInert _ (by decide) _

theorem segmentTags {s : Segment} (h : Harmless s) (rest : Text) :
    tagsFrom none (s.markup ++ rest) = spans s ++ tagsFrom none rest := by
  have free : '<' ∉ s.text := inertAbsent h.1 (by decide)
  unfold Segment.markup spans
  split
  · exact tagsOutside free rest
  · have names : Inert (Text.join [' '] s.style.classes) :=
      inertJoin (by decide) (classesInert s.style)
    have closed : '>' ∉ "span class=\"".toList ++ Text.join [' '] s.style.classes ++ ['"'] := by
      have absent := inertAbsent names (c := '>') (by decide)
      simp [absent]
    have first := tagsOpened closed (s.text ++ "</span>" ++ rest)
    have second := tagsOpened (by decide : '>' ∉ "/span".toList) rest
    have between := tagsOutside free ("</span>" ++ rest)
    simp at first second between ⊢
    rw [first, between, second]

theorem markupTags {line : Line} (h : ∀ s ∈ line.segments, Harmless s) :
    tags line.markup = line.segments.flatMap spans := by
  obtain ⟨segments⟩ := line
  unfold tags Line.markup
  induction segments with
  | nil => rfl
  | cons s rest ih =>
    rw [List.flatMap_cons, List.flatMap_cons, segmentTags (h s List.mem_cons_self),
      ih fun t mem => h t (List.mem_cons_of_mem _ mem)]

end ConsoleShell.Rendering
