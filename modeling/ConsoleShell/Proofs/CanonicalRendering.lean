import ConsoleShell.Proofs.LegibleMarkup

/-! Rendering is canonical. A text may write the same styled characters in many ways, with sequences that change
nothing, take each other back or never end; its lines are the same for all of them. So a group is replaced only
where there is something else to see. -/
namespace ConsoleShell.CanonicalRendering
open Render EscapeGrammar StyledLines LegibleMarkup

def dressed (kind : OutputKind) (raw : Text) : Text :=
  match kind with
  | .output => raw
  | .error => Sgr.red ++ raw ++ Sgr.reset

def Shows (kind : OutputKind) (source : Text) (content : List (List (Char × Style))) : Prop :=
  List.Forall₂ (fun raw items => Denotes (dressed kind raw) items) (rawLines source) content

def contentOf (group : Group) : List (List (Char × Style)) := group.lines.map characters

inductive Made : Buffer → Prop where
  | empty : Made .empty
  | print {b} (made : Made b) (kind : OutputKind) (source : Text) : Made (b.print kind source).2
  | pushLines {b} (made : Made b) (kind : OutputKind) {lines : List Line}
      (canonical : ∀ line ∈ lines, Canonical line) : Made (b.pushLines kind lines).2
  | update {b} (made : Made b) (id : GroupId) (source : Text) : Made (b.update id source).2
  | delete {b} (made : Made b) (id : GroupId) : Made (b.delete id).2
  | clear {b} (made : Made b) : Made b.clear

variable {b : Buffer} {id : GroupId} {kind : OutputKind} {source : Text}

theorem textDressed (kind : OutputKind) (source : Text) :
    Render.text kind source = (rawLines source).map fun raw => Render.line (dressed kind raw) := by
  cases kind <;> rfl

theorem textCanonical (kind : OutputKind) (source : Text) :
    ∀ line ∈ Render.text kind source, Canonical line := by
  rw [textDressed]
  intro line mem
  obtain ⟨raw, -, rfl⟩ := List.mem_map.mp mem
  exact canonicalLine (dressed kind raw)

theorem linesIff {lines : List Line} (canonical : ∀ line ∈ lines, Canonical line) :
    lines = Render.text kind source ↔ Shows kind source (lines.map characters) := by
  rw [textDressed, Shows]
  generalize rawLines source = raws
  induction raws generalizing lines with
  | nil => simp
  | cons raw rest ih =>
    cases lines with
    | nil => simp
    | cons line lines =>
      obtain ⟨first, later⟩ := List.forall_mem_cons.mp canonical
      rw [List.map_cons, List.map_cons, List.forall₂_cons, List.cons_eq_cons, lineIff first, ih later]

theorem showsText (kind : OutputKind) (source : Text) :
    Shows kind source ((Render.text kind source).map characters) :=
  (linesIff (textCanonical kind source)).mp rfl

def AllCanonical (b : Buffer) : Prop := ∀ group ∈ b.groups, ∀ line ∈ group.lines, Canonical line

theorem canonicalUpdate (canonical : AllCanonical b) (id : GroupId) (source : Text) :
    AllCanonical (b.update id source).2 := by
  unfold Buffer.update
  split
  · exact canonical
  · rename_i group found
    dsimp only
    split
    · exact canonical
    · intro changed mem
      obtain ⟨old, listed, rfl⟩ := List.mem_map.mp mem
      split
      · exact textCanonical group.kind source
      · exact canonical old listed

theorem madeCanonical (made : Made b) : AllCanonical b := by
  induction made with
  | empty => simp [AllCanonical, Buffer.empty]
  | print made kind source ih => exact eachAdded ih (textCanonical kind source)
  | pushLines made kind canonical ih => exact eachAdded ih canonical
  | update made id source ih => exact canonicalUpdate ih id source
  | delete made id ih => exact fun group mem => ih group (List.mem_filter.mp mem).1
  | clear made ih => simp [AllCanonical, Buffer.clear]

theorem unchangedIff (canonical : AllCanonical b) (id : GroupId) (source : Text) :
    (b.update id source).1 = .unchanged ↔
      ∃ group, b.group? id = some group ∧ Shows group.kind source (contentOf group) := by
  unfold Buffer.update
  cases found : b.group? id with
  | none => simp
  | some group =>
    have lines : group.lines = Render.text group.kind source ↔ Shows group.kind source (contentOf group) :=
      linesIff (canonical group (List.mem_of_find?_eq_some found))
    by_cases same : group.lines = Render.text group.kind source
    · simp [same, lines.mp same]
    · simp [same, mt lines.mpr same]

theorem rendersCanonically :
    (∀ source, Canonical (Render.line source) ∧ Denotes source (characters (Render.line source))) ∧
    (∀ a b, Render.line a = Render.line b ↔ ∃ items, Denotes a items ∧ Denotes b items) ∧
    (∀ kind source, Shows kind source ((Render.text kind source).map characters)) ∧
    (∀ b, Made b → ∀ id source, (b.update id source).1 = .unchanged ↔
      ∃ group, b.group? id = some group ∧ Shows group.kind source (contentOf group)) ∧
    ∀ a b, Canonical a → Canonical b → Unbracketed a → Unbracketed b → a.markup = b.markup → a = b := by
  refine ⟨fun source => ⟨canonicalLine source, denotesLine source⟩, fun a b => ?_, showsText,
    fun b made => unchangedIff (madeCanonical made), fun a b => markupTells⟩
  rw [lineIff (canonicalLine a)]
  constructor
  · exact fun denotes => ⟨_, denotesLine a, denotes⟩
  · rintro ⟨items, left, right⟩
    rwa [charactersLine, denotesIff.mp left]

theorem rendersCanonicallyRewritten :
    let b := (Buffer.empty.print .output "\x1b[1;31mhot\x1b[0m").2
    let source : Text := "\x1b[31m\x1b[2K\x1b[1mhot\x1b[4"
    Made b ∧ (b.update ⟨1⟩ source).1 = .unchanged ∧
      (∃ group, b.group? ⟨1⟩ = some group ∧ Shows group.kind source (contentOf group)) ∧
      Render.line "\x1b[1;31mhot\x1b[0m" = Render.line source := by
  intro b source
  obtain ⟨rendered, -, -, updates, told⟩ := rendersCanonically
  have made : Made b := .print .empty .output _
  have unchanged : (b.update ⟨1⟩ source).1 = .unchanged := by decide +kernel
  have free : Unbracketed (Render.line "\x1b[1;31mhot\x1b[0m") ∧ Unbracketed (Render.line source) := by
    unfold Unbracketed
    decide +kernel
  refine ⟨made, unchanged, (updates b made ⟨1⟩ source).mp unchanged, ?_⟩
  exact told _ _ (rendered _).1 (rendered _).1 free.1 free.2 (by decide +kernel)

end ConsoleShell.CanonicalRendering
