import ConsoleShell.Proofs.EscapeGrammar
import Mathlib.Data.List.Chain

/-! Lines as sequences of styled characters. Rendering joins neighbours of one style, so every rendered line is
canonical: no segment is empty, none holds an escape character, and neighbours differ in style. A canonical line
is known by its characters. -/
namespace ConsoleShell.StyledLines
open Render Rendering EscapeGrammar

def spread (segments : List Segment) : List (Char × Style) :=
  segments.flatMap fun s => s.text.map (·, s.style)

def characters (line : Line) : List (Char × Style) := spread line.segments

structure Canonical (line : Line) : Prop where
  visible : ∀ s ∈ line.segments, s.text ≠ []
  calm : ∀ s ∈ line.segments, escapeCharacter ∉ s.text
  merged : line.segments.IsChain fun a b => a.style ≠ b.style

variable {segments : List Segment} {last : Segment} {style : Style} {c : Char}

theorem spreadAppend (a b : List Segment) : spread (a ++ b) = spread a ++ spread b := List.flatMap_append

theorem plainSpread (line : Line) : line.plain = (characters line).map Prod.fst := by
  unfold Line.plain characters spread
  rw [List.map_flatMap]
  congr 1
  funext s
  rw [List.map_map]
  exact (List.map_id _).symm

theorem pushSame (same : last.style = style) :
    Line.push (segments ++ [last]) style c = segments ++ [{ last with text := last.text ++ [c] }] := by
  simp [Line.push, same]

theorem pushOther (other : last.style ≠ style) :
    Line.push (segments ++ [last]) style c = segments ++ [last] ++ [⟨[c], style⟩] := by
  simp [Line.push, other]

theorem spreadPush (segments : List Segment) (style : Style) (c : Char) :
    spread (Line.push segments style c) = spread segments ++ [(c, style)] := by
  rcases List.eq_nil_or_concat segments with rfl | ⟨init, last, rfl⟩
  · rfl
  · rw [List.concat_eq_append]
    by_cases same : last.style = style
    · rw [pushSame same, spreadAppend, spreadAppend, List.append_assoc]
      simp [spread, same]
    · rw [pushOther same, spreadAppend]
      rfl

theorem canonicalPush (canonical : Canonical ⟨segments⟩) (ordinary : c ≠ escapeCharacter) :
    Canonical ⟨Line.push segments style c⟩ := by
  have calmChar : escapeCharacter ∉ [c] := by simpa using ordinary.symm
  rcases List.eq_nil_or_concat segments with rfl | ⟨init, last, rfl⟩
  · exact ⟨by simp [Line.push], by simpa [Line.push] using ordinary.symm, .singleton _⟩
  · rw [List.concat_eq_append] at canonical ⊢
    obtain ⟨visible, calm, merged⟩ := canonical
    by_cases same : last.style = style
    · obtain ⟨visible, -⟩ := List.forall_mem_append.mp visible
      obtain ⟨calm, calmLast⟩ := List.forall_mem_append.mp calm
      rw [pushSame same]
      refine ⟨eachAdded visible (by simp), eachAdded calm ?_, ?_⟩
      · exact List.not_mem_append (calmLast last List.mem_cons_self) calmChar
      · rw [List.isChain_append] at merged ⊢
        exact ⟨merged.1, .singleton _, by simpa using merged.2.2⟩
    · rw [pushOther same]
      refine ⟨eachAdded visible (by simp), eachAdded calm calmChar, ?_⟩
      exact merged.append (.singleton _) (by simpa using same)

theorem spreadPushed (segments : List Segment) (items : List (Char × Style)) :
    spread (pushAll segments items) = spread segments ++ items := by
  induction items generalizing segments with
  | nil => simp [pushAll]
  | cons item rest ih =>
    obtain ⟨c, style⟩ := item
    rw [pushAllCons, ih, spreadPush, List.append_assoc]
    rfl

theorem charactersMade (items : List (Char × Style)) : characters (Line.ofStyled items) = items :=
  spreadPushed [] items

theorem canonicalPushed {items : List (Char × Style)} (canonical : Canonical ⟨segments⟩)
    (ordinary : ∀ item ∈ items, item.1 ≠ escapeCharacter) : Canonical ⟨pushAll segments items⟩ := by
  induction items generalizing segments with
  | nil => exact canonical
  | cons item rest ih =>
    obtain ⟨first, later⟩ := List.forall_mem_cons.mp ordinary
    exact ih (canonicalPush canonical first) later

theorem canonicalMade {items : List (Char × Style)} (ordinary : ∀ item ∈ items, item.1 ≠ escapeCharacter) :
    Canonical (Line.ofStyled items) :=
  canonicalPushed ⟨by simp, by simp, .nil⟩ ordinary

theorem madeAgain {line : Line} (canonical : Canonical line) : Line.ofStyled (characters line) = line := by
  obtain ⟨segments⟩ := line
  have pushed : pushAll [] (spread segments) = segments := by
    -- Each segment but the first begins a new run, since its style is not that of the one before.
    induction segments using List.reverseRecOn with
    | nil => rfl
    | append_singleton init last ih =>
      obtain ⟨visible, calm, merged⟩ := canonical
      obtain ⟨before, nonempty⟩ := List.forall_mem_append.mp visible
      obtain ⟨calm, -⟩ := List.forall_mem_append.mp calm
      obtain ⟨chain, -, apart⟩ := List.isChain_append.mp merged
      obtain ⟨c, run, begins⟩ := List.exists_cons_of_ne_nil (nonempty last List.mem_cons_self)
      have lastSpread : spread [last] = (c :: run).map (·, last.style) := by simp [spread, begins]
      rw [spreadAppend, pushAllAppend, ih ⟨before, calm, chain⟩, lastSpread, pushAllRun, ← begins]
      unfold pushRun
      split
      · rename_i earlier found
        rw [if_neg (apart earlier found last rfl)]
      · rfl
  exact congrArg Line.mk pushed

theorem canonicalSame {a b : Line} (left : Canonical a) (right : Canonical b)
    (same : characters a = characters b) : a = b := by
  rw [← madeAgain left, ← madeAgain right, same]

/- A line behind another one. The segments at the seam become one if they have one style. -/
def joined (a b : Line) : Line :=
  match a.segments.getLast?, b.segments with
  | some last, first :: rest =>
    if last.style = first.style then
      ⟨a.segments.dropLast ++ ⟨last.text ++ first.text, last.style⟩ :: rest⟩
    else ⟨a.segments ++ first :: rest⟩
  | _, _ => ⟨a.segments ++ b.segments⟩

theorem joinedSame {first : Segment} {rest : List Segment} (same : last.style = first.style) :
    joined ⟨segments ++ [last]⟩ ⟨first :: rest⟩ =
      ⟨segments ++ ⟨last.text ++ first.text, last.style⟩ :: rest⟩ := by
  simp [joined, same]

theorem joinedOther {first : Segment} {rest : List Segment} (other : last.style ≠ first.style) :
    joined ⟨segments ++ [last]⟩ ⟨first :: rest⟩ = ⟨segments ++ [last] ++ first :: rest⟩ := by
  simp [joined, other]

theorem joinedEmpty (a : Line) : joined a ⟨[]⟩ = a := by
  simp [joined]

theorem charactersJoined (a b : Line) : characters (joined a b) = characters a ++ characters b := by
  obtain ⟨left⟩ := a
  obtain ⟨right⟩ := b
  rcases List.eq_nil_or_concat left with rfl | ⟨init, last, rfl⟩
  · rfl
  · rw [List.concat_eq_append]
    cases right with
    | nil => rw [joinedEmpty]; exact (List.append_nil _).symm
    | cons first rest =>
      by_cases same : last.style = first.style
      · rw [joinedSame same]
        simp [characters, spread, same]
      · rw [joinedOther same]
        exact spreadAppend _ _

theorem canonicalJoined {a b : Line} (left : Canonical a) (right : Canonical b) :
    Canonical (joined a b) := by
  obtain ⟨before⟩ := a
  obtain ⟨behind⟩ := b
  rcases List.eq_nil_or_concat before with rfl | ⟨init, last, rfl⟩
  · exact right
  · rw [List.concat_eq_append] at left ⊢
    cases behind with
    | nil => rwa [joinedEmpty]
    | cons first rest =>
      by_cases same : last.style = first.style
      · obtain ⟨seenLeft, seenLast⟩ := List.forall_mem_append.mp left.visible
        obtain ⟨calmLeft, calmLast⟩ := List.forall_mem_append.mp left.calm
        obtain ⟨-, seenRight⟩ := List.forall_mem_cons.mp right.visible
        obtain ⟨calmFirst, calmRight⟩ := List.forall_mem_cons.mp right.calm
        obtain ⟨chainLeft, -, seamLeft⟩ := List.isChain_append.mp left.merged
        obtain ⟨seamRight, chainRight⟩ := List.isChain_cons.mp right.merged
        have seen : last.text ++ first.text ≠ [] := by simp [seenLast last List.mem_cons_self]
        have calm : escapeCharacter ∉ last.text ++ first.text :=
          List.not_mem_append (calmLast last List.mem_cons_self) calmFirst
        rw [joinedSame same]
        refine ⟨List.forall_mem_append.mpr ⟨seenLeft, List.forall_mem_cons.mpr ⟨seen, seenRight⟩⟩,
          List.forall_mem_append.mpr ⟨calmLeft, List.forall_mem_cons.mpr ⟨calm, calmRight⟩⟩,
          List.isChain_append.mpr ⟨chainLeft, List.isChain_cons.mpr ⟨?_, chainRight⟩, ?_⟩⟩
        · simpa [same] using seamRight
        · simpa using seamLeft
      · rw [joinedOther same]
        refine ⟨List.forall_mem_append.mpr ⟨left.visible, right.visible⟩,
          List.forall_mem_append.mpr ⟨left.calm, right.calm⟩, left.merged.append right.merged ?_⟩
        simpa using same

theorem madeJoined {a b : List (Char × Style)} (left : ∀ item ∈ a, item.1 ≠ escapeCharacter)
    (right : ∀ item ∈ b, item.1 ≠ escapeCharacter) :
    Line.ofStyled (a ++ b) = joined (Line.ofStyled a) (Line.ofStyled b) := by
  refine canonicalSame (canonicalMade (List.forall_mem_append.mpr ⟨left, right⟩))
    (canonicalJoined (canonicalMade left) (canonicalMade right)) ?_
  rw [charactersJoined, charactersMade, charactersMade, charactersMade]

theorem characterOrdinary (style : Style) (pieces : List Piece) :
    ∀ item ∈ charactersOf style pieces, item.1 ≠ escapeCharacter := by
  induction pieces generalizing style with
  | nil => simp [charactersOf]
  | cons piece rest ih =>
    refine List.forall_mem_append.mpr ⟨?_, ih (piece.select style)⟩
    cases piece with
    | shown c ordinary => simpa [Piece.characters] using ordinary
    | lone | sequence => simp [Piece.characters]

theorem charactersLine (text : Text) : characters (Render.line text) = styled text :=
  charactersMade (styled text)

theorem canonicalLine (text : Text) : Canonical (Render.line text) := by
  obtain ⟨pieces, tail, rfl⟩ := readText text
  refine canonicalMade ?_
  rw [styled, styledRead]
  exact characterOrdinary Style.plain pieces

theorem denotesLine (text : Text) : Denotes text (characters (Render.line text)) :=
  denotesIff.mpr (charactersLine text).symm

theorem lineIff {line : Line} (canonical : Canonical line) (text : Text) :
    line = Render.line text ↔ Denotes text (characters line) := by
  constructor
  · rintro rfl
    exact denotesLine text
  · intro denotes
    refine canonicalSame canonical (canonicalLine text) ?_
    rw [charactersLine, denotesIff.mp denotes]

end ConsoleShell.StyledLines
