import ConsoleShell.Proofs.Selections

/-! Parameters that mean nothing. A sequence that describes no extended colour takes its parameters one by one,
and a number that selects nothing leaves the style as it is; but a number that needs more than 16 bits is read
as zero, and so it resets the style instead. -/
namespace ConsoleShell.UnknownParameters
open Rendering EscapeGrammar Selections

def Known (n : Nat) : Prop :=
  n ≤ 4 ∨ 22 ≤ n ∧ n ≤ 24 ∨ 30 ≤ n ∧ n ≤ 37 ∨ 39 ≤ n ∧ n ≤ 47 ∨ n = 49 ∨ 90 ≤ n ∧ n ≤ 97 ∨
    100 ≤ n ∧ n ≤ 107

instance (n : Nat) : Decidable (Known n) := inferInstanceAs (Decidable (_ ∨ _))

def Single (ps : List Parameter) : Prop := ∀ p ∈ ps, p.number ≠ 38 ∧ p.number ≠ 48

instance (ps : List Parameter) : Decidable (Single ps) :=
  inferInstanceAs (Decidable (∀ p ∈ ps, p.number ≠ 38 ∧ p.number ≠ 48))

def selected (style : Style) (ps : List Parameter) : Style :=
  style.selectAll (Style.readCodes (parametersText ps))

variable {p : Parameter} {ps before after : List Parameter} {style : Style}

/- A known number has a row of its own, and an unknown one comes to the last row. -/
theorem selectUnknown {n : Nat} (unknown : ¬ Known n) (style : Style) : style.select n = style := by
  unfold Known at unknown
  unfold Style.select
  repeat rw [if_neg (by omega)]

theorem selectEachSingle (single : Single ps) (style : Style) :
    style.selectEach (ps.map Parameter.code) = (ps.map Parameter.code).foldl Style.select style := by
  induction ps generalizing style with
  | nil => rfl
  | cons p rest ih =>
    obtain ⟨⟨foreground, background⟩, later⟩ := List.forall_mem_cons.mp single
    rw [List.map_cons, selectSingle foreground background, ih later, List.foldl_cons]

theorem selectedSingle (single : Single ps) (nonempty : ps ≠ []) (style : Style) :
    selected style ps = (ps.map Parameter.code).foldl Style.select style := by
  unfold selected
  rw [codesRead, selectAllSome nonempty, selectEachSingle single]

/- A parameter acts between those before it and those behind it. -/
theorem selectedBetween (single : Single (before ++ p :: after)) (style : Style) :
    selected style (before ++ p :: after) = (after.map Parameter.code).foldl Style.select
      (((before.map Parameter.code).foldl Style.select style).select p.code) := by
  rw [selectedSingle single (by simp), List.map_append, List.foldl_append, List.map_cons, List.foldl_cons]

theorem smallPasses (single : Single (before ++ p :: after)) (unknown : ¬ Known p.number)
    (others : before ++ after ≠ []) (small : p.number < 65536) (style : Style) :
    selected style (before ++ p :: after) = selected style (before ++ after) := by
  have code : p.code = p.number := if_pos small
  have rest : Single (before ++ after) := fun q mem =>
    single q ((List.sublist_cons_self p after).append_left before |>.subset mem)
  rw [selectedBetween single, code, selectUnknown unknown, selectedSingle rest others, List.map_append,
    List.foldl_append]

theorem largeResets (single : Single (before ++ p :: after)) (large : 65536 ≤ p.number) (style other : Style) :
    selected style (before ++ p :: after) = selected other (zero :: after) := by
  have code : p.code = 0 := if_neg (Nat.not_lt.mpr large)
  have behind : Single ([] ++ zero :: after) :=
    List.forall_mem_cons.mpr ⟨by decide, fun q mem => single q (by simp [mem])⟩
  have reset := selectedBetween behind other
  rw [List.nil_append] at reset
  rw [selectedBetween single, code, reset]
  rfl

structure Passed (before : List Parameter) (p : Parameter) (after : List Parameter) : Prop where
  small : p.number < 65536 → ∀ style, selected style (before ++ p :: after) = selected style (before ++ after)
  large : 65536 ≤ p.number → ∀ style other,
    selected style (before ++ p :: after) = selected other (zero :: after)
  /- It is ignored in a style exactly if it is small, or the others come to what they come to behind a reset. -/
  ignored : ∀ style, selected style (before ++ p :: after) = selected style (before ++ after) ↔
    p.number < 65536 ∨ selected style (before ++ after) = selected style (zero :: after)
  lines : p.number < 65536 → ∀ pre post, EndsOutside pre →
    Render.line (pre ++ selection (before ++ p :: after) ++ post) =
      Render.line (pre ++ selection (before ++ after) ++ post)

theorem unknownPasses (single : Single (before ++ p :: after)) (unknown : ¬ Known p.number)
    (others : before ++ after ≠ []) : Passed before p after where
  small small := smallPasses single unknown others small
  large large := largeResets single large
  ignored style := by
    by_cases small : p.number < 65536
    · exact iff_of_true (smallPasses single unknown others small style) (.inl small)
    · rw [largeResets single (Nat.not_lt.mp small) style style, eq_comm]
      exact (or_iff_right small).symm
  lines small pre post outside := by
    have behind (ps : List Parameter) (style : Style) : styleAfter style ([ps].map piece) = selected style ps := by
      show (piece ps).select style = _
      rw [pieceSelects, selected, codesRead]
    have same := sameSelections outside (a := [before ++ p :: after]) (b := [before ++ after]) (fun style => by
      rw [behind, behind, smallPasses single unknown others small]) post
    simpa using same

def bold : Parameter := ⟨"1", by simp, List.all_eq_true.mp rfl⟩

def overlined : Parameter := ⟨"0053", by simp, List.all_eq_true.mp rfl⟩

def green : Parameter := ⟨"32", by simp, List.all_eq_true.mp rfl⟩

def oversize : Parameter := ⟨"65536", by simp, List.all_eq_true.mp rfl⟩

theorem unknownPassesOverlined :
    Single [bold, overlined, green] ∧ ¬ Known overlined.number ∧
      selected Style.plain [bold, overlined, green] = selected Style.plain [bold, green] ∧
      Render.line ("\x1b[1;0053;32m" ++ "x") = Render.line ("\x1b[1;32m" ++ "x") := by
  have single : Single [bold, overlined, green] := by decide
  have unknown : ¬ Known overlined.number := by decide
  have passed : Passed [bold] overlined [green] := unknownPasses single unknown (by simp)
  exact ⟨single, unknown, passed.small (by decide) _, passed.lines (by decide) [] "x" ⟨[], rfl⟩⟩

theorem oversizeResets :
    Single [bold, oversize] ∧ ¬ Known oversize.number ∧
      selected Style.plain [bold] = { bold := true } ∧ selected Style.plain [bold, oversize] = Style.plain ∧
      (Render.line "\x1b[1mx").segments = [⟨['x'], { bold := true }⟩] ∧
      (Render.line "\x1b[1;65536mx").segments = [⟨['x'], Style.plain⟩] := by
  decide +kernel

end ConsoleShell.UnknownParameters
