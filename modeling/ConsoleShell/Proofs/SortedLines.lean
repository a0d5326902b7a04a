import ConsoleShell.Builtin.Sort
import Mathlib.Data.List.Destutter
import Mathlib.Data.List.TakeWhile

/-! Sorted lines. A leading number is never the undefined one, so it has a place on the line of numbers, and lines
are compared first by these places and then by their text. That puts all lines in one order in which no two of
them tie. So what is sorted depends only on which lines there are, and equal lines stand together. -/
namespace ConsoleShell.SortedLines
open Builtin Builtin.LineOrder

def comparison (numeric : Bool) : Text → Text → Ordering := if numeric then byNumber else byText

def place? (line : Text) : Option Int := (leadingNumber? line).bind Double.place?

variable {numeric : Bool} {a b : Text}

theorem unitsNumber (negative : Bool) (num den : Nat) : Double.ofUnits negative num den ≠ .nan := by
  unfold Double.ofUnits
  dsimp only
  split <;> split <;> simp

theorem decimalNumber (negative : Bool) (d : Decimal) : d.toDouble negative ≠ .nan := by
  unfold Decimal.toDouble
  dsimp only
  split
  · simp
  · split
    · simp
    · split <;> exact unitsNumber _ _ _

/- Only the name of the undefined number is read as it, and a letter of the name is missing here. -/
theorem readNumber {text : Text} {d : Double} (unnamed : ∀ c ∈ text, c.toLower ≠ 'n')
    (read : Double.read? text = some d) : d ≠ .nan := by
  unfold Double.read? at read
  split at read
  rename_i negative digits unsigned
  have within : digits ⊆ text := by
    split at unsigned
    · cases unsigned
      exact List.subset_cons_self _ _
    · cases unsigned
      exact List.subset_cons_self _ _
    · cases unsigned
      exact List.Subset.refl _
  have other : digits.map Char.toLower ≠ "nan".toList := by
    intro same
    have first : 'n' ∈ digits.map Char.toLower := by simp [same]
    obtain ⟨c, mem, lower⟩ := List.mem_map.mp first
    exact unnamed c (within mem) lower
  dsimp only at read
  split at read
  · cases read
    simp
  · rw [if_neg (by simpa using other)] at read
    obtain ⟨decimal, -, rfl⟩ := Option.map_eq_some_iff.mp read
    exact decimalNumber negative decimal

theorem digitUnnamed {c : Char} (digit : c.isDigit = true) : c.toLower ≠ 'n' := by
  have noCapital : ¬ (c.val ≥ 'A'.val ∧ c.val ≤ 'Z'.val) := by
    simp [Char.isDigit, UInt32.le_iff_toNat_le] at digit ⊢
    omega
  have same : c.toLower = c := dif_neg noCapital
  rw [same]
  rintro rfl
  contradiction

theorem numeralUnnamed (line : Text) : ∀ c ∈ leadingNumeral line, c.toLower ≠ 'n' := by
  have part {c : Char} (isPart : (c.isDigit || decide (c = '.')) = true) : c.toLower ≠ 'n' := by
    rcases Bool.or_eq_true_iff.mp isPart with digit | point
    · exact digitUnnamed digit
    · cases of_decide_eq_true point
      decide
  unfold leadingNumeral
  dsimp only
  split
  · rename_i c rest leads
    split
    · rename_i begins
      have later : ∀ d ∈ rest.takeWhile fun d => d.isDigit || d = '.', d.toLower ≠ 'n' :=
        fun d mem => part (List.mem_takeWhile_imp (p := fun d => d.isDigit || d = '.') mem)
      refine List.forall_mem_cons.mpr ⟨?_, later⟩
      rcases Bool.or_eq_true_iff.mp begins with sign | begins
      · rcases Bool.or_eq_true_iff.mp sign with minus | plus
        · cases of_decide_eq_true minus
          decide
        · cases of_decide_eq_true plus
          decide
      · exact part begins
    · simp
  · simp

theorem numberPlaced {line : Text} {d : Double} (read : leadingNumber? line = some d) :
    ∃ n, d.place? = some n := by
  have number := readNumber (numeralUnnamed line) read
  cases d with
  | nan => contradiction
  | infinite negative => exact ⟨_, rfl⟩
  | finite negative mantissa scale => exact ⟨_, rfl⟩

instance : Std.TransCmp byText :=
  Std.TransCmp.compareOfLessAndEq_of_irrefl_of_trans_of_antisymm List.lt_irrefl List.lt_trans
    fun first second => List.le_antisymm (List.not_lt.mp second) (List.not_lt.mp first)

theorem byTextSame : byText a b = .eq ↔ a = b := by
  unfold byText
  constructor
  · split
    · simp
    · split <;> simp_all
  · rintro rfl
    rw [if_neg (List.lt_irrefl _), if_pos rfl]

theorem byNumberPlaces : byNumber = compareLex (compareOn place?) byText := by
  funext a b
  unfold byNumber compareLex compareOn place?
  cases left : leadingNumber? a with
  | none =>
    cases right : leadingNumber? b with
    | none => rfl
    | some y =>
      obtain ⟨n, there⟩ := numberPlaced right
      simp [there, compare]
  | some x =>
    obtain ⟨m, here⟩ := numberPlaced left
    cases right : leadingNumber? b with
    | none => simp [here, compare]
    | some y =>
      obtain ⟨n, there⟩ := numberPlaced right
      simp [here, there, Double.compare]
      rfl

instance : Std.TransCmp (comparison numeric) := by
  cases numeric with
  | false => exact inferInstanceAs (Std.TransCmp byText)
  | true =>
    show Std.TransCmp byNumber
    rw [byNumberPlaces]
    infer_instance

theorem comparisonSame : comparison numeric a b = .eq ↔ a = b := by
  cases numeric with
  | false => exact byTextSame
  | true =>
    show byNumber a b = .eq ↔ a = b
    rw [byNumberPlaces, compareLex, Ordering.then_eq_eq, byTextSame]
    constructor
    · exact And.right
    · rintro rfl
      exact ⟨Std.ReflOrd.compare_self, rfl⟩

theorem comparisonAntisymm (first : (comparison numeric a b).isLE) (second : (comparison numeric b a).isLE) :
    a = b :=
  comparisonSame.mp (Std.OrientedCmp.isLE_antisymm first second)

instance : Std.Antisymm fun a b => (comparison numeric a b).isLE = true :=
  ⟨fun _ _ => comparisonAntisymm⟩

theorem repsErased {α : Type} [BEq α] [LawfulBEq α] [DecidableEq α] (items : List α) :
    items.eraseReps = items.destutter (· ≠ ·) := by
  have run (last : α) (rest seen : List α) :
      List.eraseRepsBy.loop (· == ·) last rest seen = seen.reverse ++ rest.destutter' (· ≠ ·) last := by
    induction rest generalizing last seen with
    | nil => simp [List.eraseRepsBy.loop]
    | cons next rest ih =>
      by_cases same : last = next
      · simp [List.eraseRepsBy.loop, List.destutter', same, ih]
      · have other : (last == next) = false := by simpa using same
        simp [List.eraseRepsBy.loop, List.destutter', same, other, ih]
  cases items with
  | nil => rfl
  | cons first rest => exact run first rest []

theorem sortedKept (numeric : Bool) (lines : List Text) : (sortLines numeric false false lines).Perm lines :=
  List.mergeSort_perm lines _

theorem sortedAscends (numeric : Bool) (lines : List Text) :
    (sortLines numeric false false lines).Pairwise fun a b => (comparison numeric a b).isLE := by
  have notBehind (a b : Text) : (comparison numeric a b != .gt) = (comparison numeric a b).isLE := by
    cases comparison numeric a b <;> rfl
  have sorted : sortLines numeric false false lines =
      lines.mergeSort fun a b => comparison numeric a b != .gt := rfl
  rw [sorted]
  simp only [notBehind]
  refine List.pairwise_mergeSort (fun a b c => Std.TransCmp.isLE_trans) (fun a b => ?_) lines
  have swapped : comparison numeric b a = (comparison numeric a b).swap := Std.OrientedCmp.eq_swap
  rw [swapped]
  cases comparison numeric a b <;> rfl

theorem sortedSingle (numeric : Bool) (lines : List Text) :
    sortLines numeric false true lines = (sortLines numeric false false lines).dedup := by
  have single : sortLines numeric false true lines = (sortLines numeric false false lines).eraseReps := rfl
  -- Only neighbours are compared, but in this order equal lines are neighbours.
  rw [single, repsErased, (sortedAscends numeric lines).destutter_eq_dedup]

theorem sortedTurned (numeric unique : Bool) (lines : List Text) :
    sortLines numeric true unique lines = (sortLines numeric false unique lines).reverse := rfl

theorem sortedMember {reverse unique : Bool} {lines : List Text} {line : Text} :
    line ∈ sortLines numeric reverse unique lines ↔ line ∈ lines := by
  have upward : line ∈ sortLines numeric false unique lines ↔ line ∈ lines := by
    cases unique with
    | false => exact (sortedKept numeric lines).mem_iff
    | true => rw [sortedSingle, List.mem_dedup, (sortedKept numeric lines).mem_iff]
  cases reverse with
  | false => exact upward
  | true => rw [sortedTurned, List.mem_reverse, upward]

theorem sortedAlike {lines others : List Text} (same : lines.Perm others) (numeric reverse unique : Bool) :
    sortLines numeric reverse unique lines = sortLines numeric reverse unique others := by
  have plain : sortLines numeric false false lines = sortLines numeric false false others := by
    have rearranged := ((sortedKept numeric lines).trans same).trans (sortedKept numeric others).symm
    exact rearranged.eq_of_pairwise (fun a b _ _ => comparisonAntisymm) (sortedAscends numeric lines)
      (sortedAscends numeric others)
  have upward : sortLines numeric false unique lines = sortLines numeric false unique others := by
    cases unique with
    | false => exact plain
    | true => rw [sortedSingle, sortedSingle, plain]
  cases reverse with
  | false => exact upward
  | true => rw [sortedTurned, sortedTurned, upward]

structure Sorts (numeric : Bool) (lines : List Text) : Prop where
  kept : ∀ reverse, (sortLines numeric reverse false lines).Perm lines
  single : ∀ reverse, (sortLines numeric reverse true lines).Nodup ∧
    ∀ line, line ∈ sortLines numeric reverse true lines ↔ line ∈ lines
  ascends : ∀ unique, (sortLines numeric false unique lines).Pairwise fun a b => comparison numeric a b ≠ .gt
  turned : ∀ unique, sortLines numeric true unique lines = (sortLines numeric false unique lines).reverse

theorem sorts (numeric : Bool) (lines : List Text) : Sorts numeric lines where
  kept reverse := by
    cases reverse with
    | false => exact sortedKept numeric lines
    | true => exact (List.reverse_perm _).trans (sortedKept numeric lines)
  single reverse := by
    refine ⟨?_, fun line => sortedMember⟩
    have upward : (sortLines numeric false true lines).Nodup := by
      rw [sortedSingle]
      exact List.nodup_dedup _
    cases reverse with
    | false => exact upward
    | true => rwa [sortedTurned, List.nodup_reverse]
  ascends unique := by
    have notBehind {a b : Text} (before : (comparison numeric a b).isLE) : comparison numeric a b ≠ .gt := by
      intro behind
      simp [behind] at before
    have ascending := (sortedAscends numeric lines).imp notBehind
    cases unique with
    | false => exact ascending
    | true =>
      rw [sortedSingle]
      exact ascending.sublist (List.dedup_sublist _)
  turned unique := sortedTurned numeric unique lines

theorem sortsInOrder (numeric : Bool) :
    Std.TransCmp (comparison numeric) ∧ (∀ a b, comparison numeric a b = .eq ↔ a = b) ∧
      (∀ lines, Sorts numeric lines) ∧
      ∀ lines others : List Text, lines.Perm others → ∀ reverse unique,
        sortLines numeric reverse unique lines = sortLines numeric reverse unique others :=
  ⟨inferInstance, fun _ _ => comparisonSame, sorts numeric,
    fun _ _ same reverse unique => sortedAlike same numeric reverse unique⟩

theorem sortsInOrderMixed :
    let lines : List Text := ["10 apples", "x", "2.5", "2.50", "-1", "x"].map String.toList
    let others : List Text := ["x", "x", "-1", "2.5", "2.50", "10 apples"].map String.toList
    lines.Perm others ∧ sortLines true true true lines = sortLines true true true others ∧
      sortLines true true true lines = ["10 apples", "2.50", "2.5", "-1", "x"].map String.toList := by
  intro lines others
  obtain ⟨-, -, -, alike⟩ := sortsInOrder true
  have same : lines.Perm others := by decide
  have turned := alike lines others same true true
  have placed : sortLines true false false others = others :=
    (sortedKept true others).eq_of_pairwise (fun a b _ _ => comparisonAntisymm) (sortedAscends true others)
      (by decide +kernel)
  refine ⟨same, turned, ?_⟩
  rw [turned, sortedTurned, sortedSingle, placed]
  decide

end ConsoleShell.SortedLines
