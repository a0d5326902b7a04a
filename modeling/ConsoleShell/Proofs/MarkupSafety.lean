import ConsoleShell.Proofs.Sound

/-! No user can put markup of their own into what is shown. Text reaches a console or a job only
escaped, and rendering drops whole escape sequences but never makes a character, so every segment
can stand in markup as it is and the renderer's own spans are the only tags. -/
namespace ConsoleShell.Shell
open Markup Rendering Render Captured

inductive Holds (s : Shell) (line : Line) : Prop where
  | console {session : SessionId} {b : Buffer} {group : Group}
      (found : s.console.buffer? session = some b) (listed : group ∈ b.groups)
      (mem : line ∈ group.lines)
  | job {id : JobId} {job : Job} {group : Group} (found : s.jobs.table.get? id = some job)
      (listed : group ∈ job.output.groups) (mem : line ∈ group.lines)

def Unmarked (text : Text) : Prop :=
  '<' ∉ text ∧ '>' ∉ text ∧ '"' ∉ text ∧ '\'' ∉ text ∧ escapeCharacter ∉ text ∧
    ∀ before after, text = before ++ '&' :: after →
      ∃ entity ∈ ["&amp;", "&lt;", "&gt;", "&quot;", "&#39;"], entity.toList <+: '&' :: after

theorem unmarked {segment : Segment} (h : Harmless segment) : Unmarked segment.text := by
  have absent (c : Char) (raw : c ∈ ['<', '>', '"', '\'']) := inertAbsent h.1 raw
  refine ⟨absent _ (by decide), absent _ (by decide), absent _ (by decide), absent _ (by decide),
    h.2, fun before after cut => ?_⟩
  obtain ⟨entity, listed, begins⟩ := (inertSpelled h.1).2 before after cut
  simp only [entities, List.mem_cons, List.not_mem_nil, or_false] at listed
  rcases listed with rfl | rfl | rfl | rfl | rfl <;> exact ⟨_, by simp, begins⟩

theorem heldHarmless {s : Shell} (h : Sound s) {line : Line} (held : Holds s line) :
    ∀ segment ∈ line.segments, Harmless segment := by
  cases held with
  | console found listed mem => exact consoleFound h.console found _ listed line mem
  | job found listed mem =>
    have harmless := Dict.everyFound h.jobs found
    exact harmless _ listed line mem

theorem noMarkupInjected {s : Shell} (reachable : Reachable s) {line : Line} (held : Holds s line) :
    (∀ segment ∈ line.segments, Unmarked segment.text) ∧
      tags line.markup = line.segments.flatMap spans := by
  have harmless := heldHarmless (soundReachable reachable) held
  exact ⟨fun segment mem => unmarked (harmless segment mem), markupTags harmless⟩

def markupTyped : Shell :=
  ((started Config.standard).openSession.2.execute ⟨0⟩ "echo -c red \"<b>&\"" none).2.resume .event ⟨0⟩

theorem noMarkupInjectedTag :
    let line : Line := ⟨[⟨"&lt;b&gt;&amp;", { foreground := some ⟨.red, false⟩ }⟩]⟩
    Reachable markupTyped ∧ Holds markupTyped line ∧
      (∀ segment ∈ line.segments, Unmarked segment.text) ∧
      tags line.markup = line.segments.flatMap spans := by
  intro line
  have reachable : Reachable markupTyped :=
    (((reachableStarted _).step (.openSession _)).step (.execute _ _ _ _)).step (.resume _ _ _)
  have found : markupTyped.console.buffer? ⟨0⟩ = some ⟨[⟨⟨1⟩, .output, [line]⟩], 1⟩ := by
    decide +kernel
  have held : Holds markupTyped line :=
    .console found List.mem_cons_self List.mem_cons_self
  exact ⟨reachable, held, noMarkupInjected reachable held⟩

end ConsoleShell.Shell
