import ConsoleShell.Proofs.Screen
import ConsoleShell.Proofs.TerminalText

/-! Redrawing in place. A terminal remembers only the group that it wrote last and its height, and erases by moving
up over so many rows. These rows are always that group's own: so what is on the screen is what one gets from the
history by adding lines below, and by replacing or removing those of a group as long as it stands at the bottom. -/
namespace ConsoleShell.Redrawing
open Markup Screen TerminalText

inductive Step where
  | event (e : OutputEvent)
  | detach

namespace Step

def lines : Step → List Line
  | event e =>
    match e.change with
    | .appended _ _ lines | .updated _ lines => lines
    | .deleted _ | .cleared => []
  | detach => []

def write (t : Terminal) : Step → Text × Terminal
  | event e => t.apply e
  | detach => ([], t.detach)

end Step

def Visible (lines : List Line) : Prop := ∀ line ∈ lines, ∀ c ∈ line.plain, isControl c = false

def written (t : Terminal) : List Step → Text
  | [] => []
  | step :: rest => (step.write t).1 ++ written (step.write t).2 rest

def rowText (line : Line) : Text := line.segments.flatMap fun s => unescape s.text

/- The lines of a group that stands at the bottom: it was written last, and since then nothing was detached, nothing
cleared, and the group not deleted. -/
def bottom? (session : SessionId) (group : GroupId) : List Step → Option (List Line)
  | [] => none
  | .detach :: _ => none
  | .event e :: past =>
    if e.session = session then
      match e.change with
      | .appended id _ lines | .updated id lines => if id = group then some lines else none
      | .deleted id => if id = group then none else bottom? session group past
      | .cleared => none
    else bottom? session group past

def rowsAbove (rows : List Text) : Option (List Line) → List Text
  | none => rows
  | some old => rows.take (rows.length - old.length)

def rowsAfter (session : SessionId) : List Step → List Text
  | [] => []
  | .detach :: past => rowsAfter session past
  | .event e :: past =>
    if e.session = session then
      match e.change with
      | .appended _ _ lines => rowsAfter session past ++ lines.map rowText
      | .updated group lines =>
        rowsAbove (rowsAfter session past) (bottom? session group past) ++ lines.map rowText
      | .deleted group => rowsAbove (rowsAfter session past) (bottom? session group past)
      | .cleared => []
    else rowsAfter session past

variable {session : SessionId} {past : List Step} {t : Terminal}

theorem bottomOnly {g h : GroupId} {left right : List Line} (first : bottom? session g past = some left)
    (second : bottom? session h past = some right) : g = h := by
  induction past with
  | nil => contradiction
  | cons step past ih =>
    cases step with
    | detach => contradiction
    | event e =>
      obtain ⟨owner, change⟩ := e
      by_cases own : owner = session
      · cases change with
        | appended id kind lines | updated id lines =>
          simp only [bottom?, own, if_true, Option.ite_none_right_eq_some] at first second
          exact first.1.symm.trans second.1
        | deleted id =>
          simp only [bottom?, own, if_true, Option.ite_none_left_eq_some] at first second
          exact ih first.2 second.2
        | cleared => simp [bottom?, own] at first
      · simp only [bottom?, own, if_false] at first second
        exact ih first second

theorem bottomOthers {g h : GroupId} {lines : List Line} (bottom : bottom? session g past = some lines)
    (other : g ≠ h) : bottom? session h past = none := by
  cases found : bottom? session h past with
  | none => rfl
  | some right => exact absurd (bottomOnly bottom found) other

theorem bottomRows {group : GroupId} {old : List Line} (bottom : bottom? session group past = some old) :
    ∃ above, rowsAfter session past = above ++ old.map rowText := by
  induction past with
  | nil => contradiction
  | cons step past ih =>
    cases step with
    | detach => contradiction
    | event e =>
      obtain ⟨owner, change⟩ := e
      by_cases own : owner = session
      · cases change with
        | appended id kind lines | updated id lines =>
          simp only [bottom?, own, if_true, Option.ite_none_right_eq_some, Option.some_inj] at bottom
          obtain ⟨-, rfl⟩ := bottom
          simp only [rowsAfter, own, if_true]
          exact ⟨_, rfl⟩
        | deleted id =>
          simp only [bottom?, own, if_true, Option.ite_none_left_eq_some] at bottom
          obtain ⟨other, bottom⟩ := bottom
          simp only [rowsAfter, own, if_true, bottomOthers bottom (Ne.symm other), rowsAbove]
          exact ih bottom
        | cleared => simp [bottom?, own] at bottom
      · simp only [bottom?, rowsAfter, own, if_false] at bottom ⊢
        exact ih bottom

/- The terminal can redraw the group at the bottom and no other. -/
structure Remembers (t : Terminal) (past : List Step) : Prop where
  moves : t.ansi = true
  uncolored : t.colored = false
  height : ∀ group, t.redrawable? group = (bottom? t.session group past).map List.length

theorem redrawableWritten (moves : t.ansi = true) (id group : GroupId) (lines : List Line) :
    ({ t with last := some (id, lines.length) } : Terminal).redrawable? group =
      (if id = group then some lines else none).map List.length := by
  by_cases same : id = group <;> simp [Terminal.redrawable?, moves, same]

theorem linesWritten (moves : t.ansi = true) (uncolored : t.colored = false) (lines : List Line) :
    t.writeLines lines = (lines.map rowText).flatMap (· ++ ['\n']) := by
  have format (line : Line) : t.formatLine line = rowText line := by
    simp [Terminal.formatLine, moves, segmentUncolored uncolored, rowText]
  simp only [Terminal.writeLines, format, List.flatMap_map]

theorem rowShown {line : Line} (shown : ∀ c ∈ line.plain, isControl c = false) :
    ∀ c ∈ rowText line, isControl c = false := by
  intro c mem
  obtain ⟨s, listed, inside⟩ := List.mem_flatMap.mp mem
  rcases unescapedMember inside with known | there
  · have plain : ∀ c ∈ special, isControl c = false := by apply eachSpecial <;> decide
    exact plain c known
  · exact shown c (List.mem_flatMap.mpr ⟨s, listed, there⟩)

theorem feedAbove (session : SessionId) (group : GroupId) (past : List Step) :
    (showing (rowsAfter session past)).feed
        ((((bottom? session group past).map List.length).map Terminal.erase).getD []) =
      showing (rowsAbove (rowsAfter session past) (bottom? session group past)) := by
  cases bottom : bottom? session group past with
  | none => rfl
  | some old =>
    obtain ⟨above, rows⟩ := bottomRows bottom
    have own : rowsAbove (above ++ old.map rowText) (some old) = above := by
      simp [rowsAbove]
    have erased := feedErase above (old.map rowText)
    rw [List.length_map] at erased
    rw [rows, own]
    exact erased

theorem feedWritten (rows : List Text) {lines : List Line} (visible : Visible lines) :
    (showing rows).feed ((lines.map rowText).flatMap (· ++ ['\n'])) = showing (rows ++ lines.map rowText) := by
  refine feedLines fun text mem => ?_
  obtain ⟨line, listed, rfl⟩ := List.mem_map.mp mem
  exact rowShown (visible line listed)

structure Redraws (t : Terminal) (past : List Step) (step : Step) : Prop where
  session : (step.write t).2.session = t.session
  remembers : Remembers (step.write t).2 (step :: past)
  screen : (showing (rowsAfter t.session past)).feed (step.write t).1 =
    showing (rowsAfter t.session (step :: past))

theorem redrawsWriting (remembers : Remembers t past) {step : Step} {text : Text} {last : Option (GroupId × Nat)}
    (writing : step.write t = (text, { t with last }))
    (height : ∀ group, ({ t with last } : Terminal).redrawable? group =
      (bottom? t.session group (step :: past)).map List.length)
    (screen : (showing (rowsAfter t.session past)).feed text = showing (rowsAfter t.session (step :: past))) :
    Redraws t past step where
  session := by rw [writing]
  remembers := by
    rw [writing]
    exact ⟨remembers.moves, remembers.uncolored, height⟩
  screen := by rw [writing, screen]

theorem elsewhereRedraws (remembers : Remembers t past) {e : OutputEvent} (other : e.session ≠ t.session) :
    Redraws t past (.event e) := by
  refine redrawsWriting remembers (if_pos other) (fun group => ?_) ?_
  · simp only [bottom?, other, if_false]
    exact remembers.height group
  · simp only [rowsAfter, other, if_false]
    rfl

theorem detachRedraws (remembers : Remembers t past) : Redraws t past .detach :=
  redrawsWriting remembers rfl (fun _ => rfl) rfl

theorem appendRedraws (remembers : Remembers t past) (id : GroupId) (kind : OutputKind) {lines : List Line}
    (visible : Visible lines) : Redraws t past (.event ⟨t.session, .appended id kind lines⟩) := by
  have writing : (Step.event ⟨t.session, .appended id kind lines⟩).write t =
      (t.writeLines lines, { t with last := some (id, lines.length) }) := by
    simp [Step.write, Terminal.apply]
  refine redrawsWriting remembers writing (fun group => ?_) ?_
  · rw [redrawableWritten remembers.moves]
    simp [bottom?]
  · rw [linesWritten remembers.moves remembers.uncolored, feedWritten _ visible]
    simp [rowsAfter]

theorem updateRedraws (remembers : Remembers t past) (id : GroupId) {lines : List Line} (visible : Visible lines) :
    Redraws t past (.event ⟨t.session, .updated id lines⟩) := by
  have writing : (Step.event ⟨t.session, .updated id lines⟩).write t =
      (((t.redrawable? id).map Terminal.erase).getD [] ++ t.writeLines lines,
        { t with last := some (id, lines.length) }) := by
    simp [Step.write, Terminal.apply]
  refine redrawsWriting remembers writing (fun group => ?_) ?_
  · rw [redrawableWritten remembers.moves]
    simp [bottom?]
  · rw [remembers.height, feedAppend, feedAbove, linesWritten remembers.moves remembers.uncolored,
      feedWritten _ visible]
    simp [rowsAfter]

theorem deletionRedraws (remembers : Remembers t past) (id : GroupId) :
    Redraws t past (.event ⟨t.session, .deleted id⟩) := by
  have height := remembers.height id
  cases bottom : bottom? t.session id past with
  | none =>
    rw [bottom] at height
    have writing : (Step.event ⟨t.session, .deleted id⟩).write t = ([], { t with last := t.last }) := by
      simp [Step.write, Terminal.apply, height]
    refine redrawsWriting remembers writing (fun group => ?_) ?_
    · by_cases same : id = group
      · simpa [bottom?, ← same] using height
      · simpa [bottom?, same] using remembers.height group
    · simp only [rowsAfter, if_true, bottom, rowsAbove]
      rfl
  | some old =>
    rw [bottom] at height
    have writing : (Step.event ⟨t.session, .deleted id⟩).write t =
        (Terminal.erase old.length, { t with last := none }) := by
      simp [Step.write, Terminal.apply, height]
    have erased := feedAbove t.session id past
    rw [bottom] at erased
    refine redrawsWriting remembers writing (fun group => ?_) ?_
    · by_cases same : id = group
      · simp [bottom?, Terminal.redrawable?, same]
      · simp [bottom?, Terminal.redrawable?, same, bottomOthers bottom same]
    · simp only [rowsAfter, if_true, bottom]
      exact erased

theorem clearingRedraws (remembers : Remembers t past) : Redraws t past (.event ⟨t.session, .cleared⟩) := by
  have writing : (Step.event ⟨t.session, .cleared⟩).write t =
      ("\x1b[2J\x1b[H".toList, { t with last := none }) := by
    simp [Step.write, Terminal.apply, remembers.moves]
  refine redrawsWriting remembers writing (fun group => ?_) ?_
  · simp [bottom?, Terminal.redrawable?]
  · rw [feedClear rfl]
    simp [rowsAfter]

theorem stepRedraws (remembers : Remembers t past) {step : Step}
    (visible : Visible step.lines) : Redraws t past step := by
  cases step with
  | detach => exact detachRedraws remembers
  | event e =>
    by_cases own : e.session = t.session
    · obtain ⟨owner, change⟩ := e
      obtain rfl : owner = t.session := own
      cases change with
      | appended id kind lines => exact appendRedraws remembers id kind visible
      | updated id lines => exact updateRedraws remembers id visible
      | deleted id => exact deletionRedraws remembers id
      | cleared => exact clearingRedraws remembers
    · exact elsewhereRedraws remembers own

theorem feedSteps (remembers : Remembers t past) {steps : List Step}
    (visible : ∀ step ∈ steps, Visible step.lines) :
    (showing (rowsAfter t.session past)).feed (written t steps) =
      showing (rowsAfter t.session (steps.reverse ++ past)) := by
  induction steps generalizing t past with
  | nil => rfl
  | cons step rest ih =>
    obtain ⟨first, later⟩ := List.forall_mem_cons.mp visible
    obtain ⟨session, remembers, screen⟩ := stepRedraws remembers first
    have rows := ih remembers later
    rw [session] at rows
    rw [written, feedAppend, screen, rows, List.reverse_cons, List.append_assoc]
    rfl

/- Whatever events of whatever sessions arrive, what a terminal that moves the cursor writes shows the rows of the
rules; and the rows that it may erase are those of the group that stands at the bottom. -/
theorem redrawsInPlace (session : SessionId) (steps : List Step)
    (visible : ∀ step ∈ steps, Visible step.lines) :
    ({} : Screen).feed (written { session, ansi := true, colored := false } steps) =
        showing (rowsAfter session steps.reverse) ∧
      ∀ group old, bottom? session group steps.reverse = some old →
        ∃ above, rowsAfter session steps.reverse = above ++ old.map rowText := by
  have fresh : Remembers { session, ansi := true, colored := false } [] := ⟨rfl, rfl, fun _ => rfl⟩
  have rows := feedSteps fresh visible
  rw [List.append_nil] at rows
  exact ⟨rows, fun group old => bottomRows⟩

theorem redrawsInPlaceRun :
    let session : SessionId := ⟨1⟩
    let line (text : Text) : Line := Render.line text
    let steps : List Step := [
      .event ⟨session, .appended ⟨1⟩ .output [line "a"]⟩,
      .event ⟨session, .appended ⟨2⟩ .output [line "10%", line "0 &lt; 1"]⟩,
      .event ⟨⟨2⟩, .cleared⟩,
      .event ⟨session, .updated ⟨2⟩ [line "50%"]⟩,
      .event ⟨session, .updated ⟨1⟩ [line "b", line "c"]⟩,
      .event ⟨session, .deleted ⟨2⟩⟩,
      .event ⟨session, .updated ⟨1⟩ []⟩,
      .event ⟨session, .updated ⟨1⟩ [line "d", line "e"]⟩,
      .detach,
      .event ⟨session, .deleted ⟨1⟩⟩,
      .event ⟨session, .updated ⟨1⟩ [line "f"]⟩]
    (∀ step ∈ steps, Visible step.lines) ∧
      ({} : Screen).feed (written { session, ansi := true, colored := false } steps) =
        showing ["a", "50%", "d", "e", "f"] := by
  intro session line steps
  have all : (steps.all fun step => step.lines.all fun line => line.plain.all fun c => !isControl c) = true := by
    decide +kernel
  have visible : ∀ step ∈ steps, Visible step.lines := by
    simpa only [Visible, List.all_eq_true, Bool.not_eq_true'] using all
  have rows : rowsAfter session steps.reverse = ["a", "50%", "d", "e", "f"] := by
    decide +kernel
  have screen := (redrawsInPlace session steps visible).1
  rw [rows] at screen
  exact ⟨visible, screen⟩

end ConsoleShell.Redrawing
