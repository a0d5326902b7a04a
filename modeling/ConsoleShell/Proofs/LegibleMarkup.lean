import ConsoleShell.Proofs.StyledLines
import Mathlib.Data.List.Nodup

/-! Markup that can be read back. The classes of a style tell which style it is, and where no segment holds an
angle bracket of its own, the spans tell where the segments begin and end. So lines that differ have markup that
differs. -/
namespace ConsoleShell.LegibleMarkup
open Rendering StyledLines

inductive Attribute where
  | bold
  | dim
  | italic
  | underline
  | foreground (shade : Shade)
  | background (shade : Shade)
  deriving DecidableEq, Repr

def Attribute.name : Attribute → Text
  | bold => "ansi-bold"
  | dim => "ansi-dim"
  | italic => "ansi-italic"
  | underline => "ansi-underline"
  | foreground shade => (if shade.bright then "ansi-bright-" else "ansi-") ++ shade.color.name
  | background shade => (if shade.bright then "ansi-bg-bright-" else "ansi-bg-") ++ shade.color.name

def shades : List Shade := [false, true].flatMap fun bright => Color.all.map (⟨·, bright⟩)

def Attribute.all : List Attribute :=
  [bold, dim, italic, underline] ++ shades.map foreground ++ shades.map background

def attributes (s : Style) : List Attribute :=
  (if s.bold then [.bold] else []) ++ (if s.dim then [.dim] else []) ++
    (if s.italic then [.italic] else []) ++ (if s.underline then [.underline] else []) ++
    s.foreground.toList.map .foreground ++ s.background.toList.map .background

theorem attributeListed (a : Attribute) : a ∈ Attribute.all := by
  have shadeListed (shade : Shade) : shade ∈ shades := by
    obtain ⟨color, bright⟩ := shade
    cases color <;> cases bright <;> decide
  cases a with
  | bold | dim | italic | underline => decide
  | foreground shade | background shade => simp [Attribute.all, shadeListed shade]

theorem namesApart : Attribute.all.Pairwise fun a b => a.name ≠ b.name := by decide +kernel

theorem nameInjective : Function.Injective Attribute.name := fun a b same =>
  List.inj_on_of_nodup_map (List.pairwise_map.mpr namesApart) (attributeListed a) (attributeListed b) same

theorem nameUnbroken : ∀ a ∈ Attribute.all, ' ' ∉ a.name := by decide +kernel

theorem classesNamed (s : Style) : s.classes = (attributes s).map Attribute.name := by
  obtain ⟨foreground, background, bold, dim, italic, underline⟩ := s
  cases foreground <;> cases background <;> cases bold <;> cases dim <;> cases italic <;>
    cases underline <;> rfl

theorem attributesInjective : Function.Injective attributes := by
  intro s t same
  have listed (a : Attribute) : a ∈ attributes s ↔ a ∈ attributes t := by rw [same]
  have bold : s.bold = t.bold := Bool.eq_iff_iff.mpr (by simpa [attributes] using listed .bold)
  have dim : s.dim = t.dim := Bool.eq_iff_iff.mpr (by simpa [attributes] using listed .dim)
  have italic : s.italic = t.italic := Bool.eq_iff_iff.mpr (by simpa [attributes] using listed .italic)
  have underline : s.underline = t.underline :=
    Bool.eq_iff_iff.mpr (by simpa [attributes] using listed .underline)
  have foreground : s.foreground = t.foreground :=
    Option.ext fun shade => by simpa [attributes] using listed (.foreground shade)
  have background : s.background = t.background :=
    Option.ext fun shade => by simpa [attributes] using listed (.background shade)
  cases s
  cases t
  simp_all

theorem classesUnbroken (s : Style) : ∀ name ∈ s.classes, ' ' ∉ name := by
  rw [classesNamed]
  intro name mem
  obtain ⟨a, -, rfl⟩ := List.mem_map.mp mem
  exact nameUnbroken a (attributeListed a)

theorem classesSome {s : Style} (styled : s ≠ Style.plain) : s.classes ≠ [] := by
  rw [classesNamed, Ne, List.map_eq_nil_iff]
  exact fun same => styled (attributesInjective same)

def listing (s : Style) : Text := Text.join [' '] s.classes

theorem listingTells {s t : Style} (left : s ≠ Style.plain) (right : t ≠ Style.plain)
    (same : listing s = listing t) : s = t := by
  have words {r : Style} (styled : r ≠ Style.plain) : (listing r).splitOn ' ' = r.classes :=
    List.splitOn_intercalate ' ' (classesUnbroken r) (classesSome styled)
  have classes : s.classes = t.classes := by rw [← words left, ← words right, same]
  rw [classesNamed, classesNamed] at classes
  exact attributesInjective (List.map_injective_iff.mpr nameInjective classes)

theorem listingFree (s : Style) : '>' ∉ listing s :=
  inertAbsent (Markup.inertJoin (by decide) (classesInert s)) (by decide)

def Begins (c : Char) (text : Text) : Prop := ∀ d ∈ text.head?, d = c

theorem frontTold {c : Char} {a b x y : Text} (left : c ∉ a) (right : c ∉ b) (beginsLeft : Begins c x)
    (beginsRight : Begins c y) (same : a ++ x = b ++ y) : a = b ∧ x = y := by
  have front {a x : Text} (free : c ∉ a) (begins : Begins c x) : (a ++ x).takeWhile (· != c) = a := by
    have stops : x.takeWhile (· != c) = [] := by
      cases x with
      | nil => rfl
      | cons d rest => simp [begins d rfl]
    rw [List.takeWhile_append_of_pos, stops, List.append_nil]
    exact fun d mem => bne_iff_ne.mpr (fun equal => free (equal ▸ mem))
  have fronts : a = b := by rw [← front left beginsLeft, ← front right beginsRight, same]
  subst fronts
  exact ⟨rfl, List.append_cancel_left same⟩

theorem beginsCons (c : Char) (rest : Text) : Begins c (c :: rest) := by
  rintro d ⟨⟩
  rfl

/- Segments whose spans can be told from what stands in them. -/
structure Legible (segments : List Segment) : Prop where
  visible : ∀ s ∈ segments, s.text ≠ []
  opensNone : ∀ s ∈ segments, '<' ∉ s.text
  closesNone : ∀ s ∈ segments, '>' ∉ s.text
  merged : segments.IsChain fun a b => a.style ≠ b.style

def markupOf (segments : List Segment) : Text := segments.flatMap Segment.markup

variable {s t : Segment} {a b : List Segment}

theorem legibleTail (legible : Legible (s :: a)) : Legible a where
  visible r mem := legible.visible r (List.mem_cons_of_mem _ mem)
  opensNone r mem := legible.opensNone r (List.mem_cons_of_mem _ mem)
  closesNone r mem := legible.closesNone r (List.mem_cons_of_mem _ mem)
  merged := legible.merged.tail

theorem markupPlain (plain : s.style = Style.plain) : s.markup = s.text := if_pos plain

theorem markupStyled (styled : s.style ≠ Style.plain) (rest : Text) : s.markup ++ rest =
    '<' :: ("span class=\"" ++ listing s.style ++ ['"'] ++ '>' :: (s.text ++ '<' :: ("/span>" ++ rest))) := by
  simp [Segment.markup, styled, listing]

theorem markupBegins (plain : s.style = Style.plain) (legible : Legible (s :: a)) :
    Begins '<' (markupOf a) := by
  cases a with
  | nil => simp [Begins, markupOf]
  | cons t rest =>
    have styled : t.style ≠ Style.plain := by
      have apart := (List.isChain_cons_cons.mp legible.merged).1
      rw [plain] at apart
      exact apart.symm
    rw [markupOf, List.flatMap_cons, markupStyled styled]
    exact beginsCons _ _

theorem headPlain (legible : Legible (s :: a)) (plain : s.style = Style.plain) :
    ∃ c rest, markupOf (s :: a) = c :: rest ∧ c ≠ '<' := by
  obtain ⟨c, text, begins⟩ := List.exists_cons_of_ne_nil (legible.visible s List.mem_cons_self)
  refine ⟨c, text ++ markupOf a, ?_, ?_⟩
  · simp [markupOf, markupPlain plain, begins]
  · rintro rfl
    have free := legible.opensNone s List.mem_cons_self
    simp [begins] at free

theorem headStyled (styled : s.style ≠ Style.plain) : ∃ rest, markupOf (s :: a) = '<' :: rest :=
  ⟨_, markupStyled styled _⟩

theorem segmentSame (text : s.text = t.text) (style : s.style = t.style) : s = t := by
  cases s
  cases t
  simp_all

theorem kindsApart (plain : s.style = Style.plain) (styled : t.style ≠ Style.plain) (legible : Legible (s :: a)) :
    markupOf (s :: a) ≠ markupOf (t :: b) := by
  obtain ⟨c, rest, begins, other⟩ := headPlain legible plain
  obtain ⟨behind, opened⟩ := headStyled (a := b) styled
  rw [begins, opened]
  exact fun same => other (List.cons_eq_cons.mp same).1

theorem plainTold (left : Legible (s :: a)) (right : Legible (t :: b)) (plainLeft : s.style = Style.plain)
    (plainRight : t.style = Style.plain) (same : markupOf (s :: a) = markupOf (t :: b)) :
    s = t ∧ markupOf a = markupOf b := by
  have texts : s.text ++ markupOf a = t.text ++ markupOf b := by
    simpa [markupOf, markupPlain, plainLeft, plainRight] using same
  obtain ⟨text, rest⟩ := frontTold (left.opensNone s List.mem_cons_self) (right.opensNone t List.mem_cons_self)
    (markupBegins plainLeft left) (markupBegins plainRight right) texts
  exact ⟨segmentSame text (plainLeft.trans plainRight.symm), rest⟩

theorem styledTold (left : Legible (s :: a)) (right : Legible (t :: b)) (styledLeft : s.style ≠ Style.plain)
    (styledRight : t.style ≠ Style.plain) (same : markupOf (s :: a) = markupOf (t :: b)) :
    s = t ∧ markupOf a = markupOf b := by
  have spans : s.markup ++ markupOf a = t.markup ++ markupOf b := same
  rw [markupStyled styledLeft, markupStyled styledRight] at spans
  have closed (r : Segment) : '>' ∉ "span class=\"" ++ listing r.style ++ ['"'] := by
    simp [listingFree r.style]
  -- the tag up to its closing bracket, then the text up to the tag that closes the span
  obtain ⟨tag, inside⟩ := frontTold (closed s) (closed t) (beginsCons _ _) (beginsCons _ _)
    (List.cons_eq_cons.mp spans).2
  obtain ⟨text, rest⟩ := frontTold (left.opensNone s List.mem_cons_self) (right.opensNone t List.mem_cons_self)
    (beginsCons _ _) (beginsCons _ _) (List.cons_eq_cons.mp inside).2
  exact ⟨segmentSame text (listingTells styledLeft styledRight (by simpa using tag)), by simpa using rest⟩

/- The first segment is told by how the markup begins, up to where the next one begins. -/
theorem headTold (left : Legible (s :: a)) (right : Legible (t :: b))
    (same : markupOf (s :: a) = markupOf (t :: b)) : s = t ∧ markupOf a = markupOf b := by
  by_cases plainLeft : s.style = Style.plain
  · by_cases plainRight : t.style = Style.plain
    · exact plainTold left right plainLeft plainRight same
    · exact absurd same (kindsApart plainLeft plainRight left)
  · by_cases plainRight : t.style = Style.plain
    · exact absurd same.symm (kindsApart plainRight plainLeft right)
    · exact styledTold left right plainLeft plainRight same

theorem segmentsTold (left : Legible a) (right : Legible b) (same : markupOf a = markupOf b) : a = b := by
  have something {s : Segment} {a : List Segment} (legible : Legible (s :: a)) : markupOf (s :: a) ≠ [] := by
    by_cases plain : s.style = Style.plain
    · obtain ⟨c, rest, begins, -⟩ := headPlain legible plain
      simp [begins]
    · obtain ⟨rest, begins⟩ := headStyled (a := a) plain
      simp [begins]
  induction a generalizing b with
  | nil =>
    cases b with
    | nil => rfl
    | cons t b => exact absurd same.symm (something right)
  | cons s a ih =>
    cases b with
    | nil => exact absurd same (something left)
    | cons t b =>
      obtain ⟨rfl, rest⟩ := headTold left right same
      rw [ih (legibleTail left) (legibleTail right) rest]

def Unbracketed (line : Line) : Prop := ∀ s ∈ line.segments, '<' ∉ s.text ∧ '>' ∉ s.text

theorem markupTells {a b : Line} (left : Canonical a) (right : Canonical b) (freeLeft : Unbracketed a)
    (freeRight : Unbracketed b) (same : a.markup = b.markup) : a = b := by
  have legible {line : Line} (canonical : Canonical line) (free : Unbracketed line) :
      Legible line.segments :=
    ⟨canonical.visible, fun s mem => (free s mem).1, fun s mem => (free s mem).2, canonical.merged⟩
  exact congrArg Line.mk (segmentsTold (legible left freeLeft) (legible right freeRight) same)

end ConsoleShell.LegibleMarkup
