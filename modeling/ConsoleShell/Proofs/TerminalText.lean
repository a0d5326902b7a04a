import ConsoleShell.Output.Terminal
import ConsoleShell.Proofs.EscapedText

/-! The text that terminals show of a line. One that moves the cursor reads the entities of each segment back, one
that does not those of the whole line. In a line that is made of escaped texts and of sequences that select styles
no entity is cut by a change of style, so both show the same text. -/
namespace ConsoleShell.TerminalText
open Markup Render Rendering EscapedText

/- What such a line is made of. A sequence that selects a style holds numbers and signs between them, and nothing
that markup gives a meaning. -/
inductive Part where
  | escaped (original : Text)
  | selection (parameters : Text) (runs : ∀ c ∈ parameters, endsSequence c = false)
      (ordinary : ∀ c ∈ parameters, c ∉ special)

namespace Part

def text : Part → Text
  | escaped original => escape original
  | selection parameters _ _ => "\x1b[" ++ parameters ++ ['m']

def original : Part → Text
  | escaped original => original
  | selection _ _ _ => []

def Calm (part : Part) : Prop := escapeCharacter ∉ part.original

end Part

def written (parts : List Part) : Text := parts.flatMap Part.text

variable {text : Text} {parts : List Part}

theorem listedEntity {e : Text} (listed : e ∈ entities) : ∃ c ∈ special, e = entity c := by
  have made : entities.Perm (special.map entity) := by decide
  obtain ⟨c, isSpecial, same⟩ := List.mem_map.mp (made.mem_iff.mp listed)
  exact ⟨c, isSpecial, same.symm⟩

theorem inertEscaped (inert : Inert text) : ∃ original, text = escape original := by
  induction size : text.length using Nat.strong_induction_on generalizing text with
  | _ n ih =>
    cases text with
    | nil => exact ⟨[], rfl⟩
    | cons c rest =>
      have whole := inert
      obtain ⟨allowed, begins, tail⟩ := inert
      by_cases ampersand : c = '&'
      · obtain ⟨e, listed, later, same⟩ := begins ampersand
        obtain ⟨d, isSpecial, rfl⟩ := listedEntity listed
        rw [← same] at whole size ⊢
        have long := entityLong d isSpecial
        rw [List.length_append] at size
        obtain ⟨original, rfl⟩ := ih later.length (by omega) (inertDrop whole) rfl
        exact ⟨d :: original, rfl⟩
      · have plain : c ∉ special := by
          simp only [List.mem_cons, not_or] at allowed
          simp [special, allowed, ampersand]
        rw [List.length_cons] at size
        obtain ⟨original, rfl⟩ := ih rest.length (by omega) tail rfl
        exact ⟨c :: original, by rw [escapeCons, entityPlain plain]; rfl⟩

theorem unescapeAppend {a b : Text} (left : Inert a) (right : Inert b) :
    unescape (a ++ b) = unescape a ++ unescape b := by
  obtain ⟨before, rfl⟩ := inertEscaped left
  obtain ⟨after, rfl⟩ := inertEscaped right
  rw [← escapeAppend, unescapeEscape, unescapeEscape, unescapeEscape]

theorem plainHarmless {segments : List Segment} (harmless : ∀ s ∈ segments, Harmless s) :
    Inert (segments.flatMap Segment.text) ∧ escapeCharacter ∉ segments.flatMap Segment.text := by
  induction segments with
  | nil => simp
  | cons s rest ih =>
    obtain ⟨⟨inert, calm⟩, later⟩ := List.forall_mem_cons.mp harmless
    exact ⟨inertAppend inert (ih later).1, List.not_mem_append calm (ih later).2⟩

theorem unescapeSegments {segments : List Segment} (harmless : ∀ s ∈ segments, Harmless s) :
    segments.flatMap (fun s => unescape s.text) = unescape (segments.flatMap Segment.text) := by
  induction segments with
  | nil => rfl
  | cons s rest ih =>
    obtain ⟨first, later⟩ := List.forall_mem_cons.mp harmless
    rw [List.flatMap_cons, List.flatMap_cons, ih later, unescapeAppend first.1 (plainHarmless later).1]

theorem segmentUncolored {t : Terminal} (uncolored : t.colored = false) :
    t.formatSegment = fun s => unescape s.text := by
  funext s
  simp [Terminal.formatSegment, uncolored]

theorem formatHarmless {line : Line} (harmless : ∀ s ∈ line.segments, Harmless s) {t : Terminal}
    (uncolored : t.colored = false) : t.formatLine line = unescape line.plain := by
  unfold Terminal.formatLine
  split
  · rw [segmentUncolored uncolored, unescapeSegments harmless]
    rfl
  · rfl

theorem partInert (part : Part) : Inert part.text := by
  cases part with
  | escaped original => exact inertEscape original
  | selection parameters runs ordinary =>
    have opening : ∀ c ∈ ("\x1b[" : Text), c ∉ special := by simp [special]
    have ending : ∀ c ∈ ['m'], c ∉ special := by simp [special]
    have opened := List.forall_mem_append.mpr ⟨opening, ordinary⟩
    exact inertPlain (List.forall_mem_append.mpr ⟨opened, ending⟩)

theorem writtenInert (parts : List Part) : Inert (written parts) := by
  induction parts with
  | nil => trivial
  | cons part rest ih => exact inertAppend (partInert part) ih

theorem shownWritten (calm : ∀ part ∈ parts, part.Calm) :
    shownFrom .text (written parts) = escape (parts.flatMap Part.original) := by
  induction parts with
  | nil => rfl
  | cons part rest ih =>
    obtain ⟨first, later⟩ := List.forall_mem_cons.mp calm
    show shownFrom .text (part.text ++ written rest) = escape (part.original ++ rest.flatMap Part.original)
    rw [escapeAppend, ← ih later]
    cases part with
    | escaped original => exact shownCalm (escapeAbsent (fun e listed => (entitiesCalm e listed).2) first) _
    | selection parameters runs ordinary =>
      have opened : (Part.selection parameters runs ordinary).text ++ written rest =
          escapeCharacter :: '[' :: (parameters ++ 'm' :: written rest) := by
        simp [Part.text, escapeCharacter]
      show _ = shownFrom .text (written rest)
      rw [opened]
      show shownFrom .parameters (parameters ++ 'm' :: written rest) = _
      rw [shownRuns runs]
      rfl

/- With colours off a terminal shows the same text whether it writes segment by segment or the line as a whole.
None of it is an escape character, and where the escaped texts bring none of their own it is these texts. -/
theorem terminalsAgree (parts : List Part) :
    let line := Render.line (written parts)
    line.segments.flatMap (fun s => unescape s.text) = unescape line.plain ∧
      escapeCharacter ∉ unescape line.plain ∧
      (∀ t : Terminal, t.colored = false → t.formatLine line = unescape line.plain) ∧
      ((∀ part ∈ parts, part.Calm) → unescape line.plain = parts.flatMap Part.original) ∧
      ∀ text, unescape (escape text) = text := by
  intro line
  have harmless := lineHarmless (writtenInert parts)
  have calm := (plainHarmless harmless).2
  have noEscape : escapeCharacter ∉ unescape line.plain := fun mem => (unescapedMember mem).elim (by decide) calm
  refine ⟨unescapeSegments harmless, noEscape, fun t => formatHarmless harmless, ?_, unescapeEscape⟩
  intro calm
  rw [shownPlain, shownWritten calm, unescapeEscape]

theorem terminalsAgreeSplit (session : SessionId) :
    let bold : Part := .selection ['1'] (List.forall_mem_singleton.mpr rfl) (List.forall_mem_singleton.mpr (by decide))
    let reset : Part := .selection [] (List.forall_mem_nil _) (List.forall_mem_nil _)
    let parts := [.escaped "a<b &lt;", bold, .escaped "' \x22", reset, .escaped "&"]
    let t : Terminal := { session, ansi := true, colored := false }
    t.colored = false ∧ (∀ part ∈ parts, part.Calm) ∧
      t.formatLine (Render.line (written parts)) = "a<b &lt;' \x22&".toList := by
  intro bold reset parts t
  obtain ⟨-, -, formats, shown, -⟩ := terminalsAgree parts
  have calm : ∀ part ∈ parts, part.Calm := by
    simp [parts, bold, reset, Part.Calm, Part.original]
    decide
  exact ⟨rfl, calm, (formats t rfl).trans (shown calm)⟩

end ConsoleShell.TerminalText
