import ConsoleShell.Number.Decimal
import ConsoleShell.Number.Duration
import Mathlib.Algebra.Group.Nat.Hom

/-! Spans of time that are too long. A number of seconds that is read from text has a short mantissa, so it
cannot come close to the bound of what is counted without reaching it: the spans that cannot be counted
are just those from the bound on. -/
namespace ConsoleShell

theorem twoToPow (n : Nat) : twoTo n = 2 ^ n := rfl

theorem twoToPos (n : Nat) : 0 < twoTo n := Nat.two_pow_pos n

namespace Double

def Short : Double → Prop
  | .finite _ mantissa _ => mantissa < twoTo 53
  | .nan | .infinite _ => True

theorem roundAbove (num den : Nat) : num / den ≤ roundEven num den := by
  unfold roundEven
  dsimp only
  split
  · exact Nat.le_refl _
  · split <;> omega

theorem roundBelow (num den : Nat) : roundEven num den ≤ num / den + 1 := by
  unfold roundEven
  dsimp only
  split
  · exact Nat.le_succ _
  · split <;> omega

theorem shortUnits (negative : Bool) (num den : Nat) : Short (ofUnits negative num den) := by
  have quotient : num / (den * twoTo ((num / den).log2 - 52)) < 2 ^ 53 := by
    rw [← Nat.div_div_eq_div_mul, twoToPow, Nat.div_lt_iff_lt_mul (Nat.two_pow_pos _), ← Nat.pow_add]
    exact Nat.lt_of_lt_of_le Nat.lt_log2_self (Nat.pow_le_pow_right (by decide) (by omega))
  have rounded := roundBelow num (den * twoTo ((num / den).log2 - 52))
  unfold ofUnits
  dsimp only
  generalize roundEven num (den * twoTo ((num / den).log2 - 52)) = mantissa at rounded
  have bound : mantissa ≤ twoTo 53 := Nat.le_trans rounded quotient
  split
  · split
    · trivial
    · exact (by decide : twoTo 52 < twoTo 53)
  · rename_i other
    split
    · trivial
    · exact Nat.lt_of_le_of_ne bound other

theorem shortDecimal (negative : Bool) (d : Decimal) : Short (d.toDouble negative) := by
  have zero : 0 < twoTo 53 := by decide
  unfold Decimal.toDouble
  dsimp only
  split
  · exact zero
  · split
    · trivial
    · split <;> exact shortUnits _ _ _

theorem shortRead {text : Text} {d : Double} (read : Double.read? text = some d) : Short d := by
  -- What follows the sign, whichever it is.
  have unsigned (negative : Bool) (text : Text)
      (read : (if text.map Char.toLower == "inf" || text.map Char.toLower == "infinity" then
          some (.infinite negative)
        else if text.map Char.toLower == "nan" then some .nan
        else (Decimal.read? text).map (Decimal.toDouble negative)) = some d) : Short d := by
    split at read
    · cases read
      trivial
    · split at read
      · cases read
        trivial
      · obtain ⟨written, -, rfl⟩ := Option.map_eq_some_iff.mp read
        exact shortDecimal _ _
  unfold Double.read? at read
  dsimp only at read
  split at read
  · exact unsigned true _ read
  · exact unsigned false _ read
  · exact unsigned false _ read

theorem shortDivided (d : Double) (n : Nat) : Short (d.divideBy n) := by
  cases d with
  | finite negative mantissa scale => exact shortUnits _ _ _
  | nan | infinite negative => trivial

theorem finitePositive (mantissa scale : Nat) : isNonNegative (.finite false mantissa scale) = true := by
  simp only [isNonNegative, place?, Bool.false_eq_true, if_false]
  exact decide_eq_true (Int.natCast_nonneg _)

theorem infinitePositive : isNonNegative (.infinite false) = true := by decide +kernel

theorem negativeZero {mantissa scale : Nat} (h : isNonNegative (.finite true mantissa scale) = true) :
    mantissa = 0 := by
  have empty : mantissa * twoTo scale = 0 := by
    simp only [isNonNegative, place?, if_true, decide_eq_true_eq] at h
    omega
  exact (Nat.mul_eq_zero.mp empty).resolve_right (Nat.ne_of_gt (twoToPos scale))

theorem unitsPositive (num den : Nat) : (ofUnits false num den).isNonNegative = true := by
  unfold ofUnits
  dsimp only
  split
  all_goals
    split
    · exact infinitePositive
    · exact finitePositive _ _

theorem dividedPositive {d : Double} (h : d.isNonNegative = true) (n : Nat) :
    (d.divideBy n).isNonNegative = true := by
  cases d with
  | nan | infinite negative => exact h
  | finite negative mantissa scale =>
    cases negative with
    | false => exact unitsPositive _ _
    | true =>
      have empty (den : Nat) : roundEven 0 den = 0 := by simp [roundEven]
      have zero : ofUnits true 0 n = .finite true 0 0 := by
        simp [ofUnits, empty, twoToPow]
      rw [negativeZero h]
      simp [divideBy, zero, isNonNegative, place?]

end Double

namespace Duration

def Overlong : Double → Prop
  | .finite negative mantissa scale => negative = false ∧ secondsBound * Double.one ≤ mantissa * twoTo scale
  | .infinite negative => negative = false
  | .nan => False

theorem unitBelow {mantissa scale : Nat} (short : mantissa < 2 ^ 53) {n : Nat}
    (below : mantissa * 2 ^ scale < 2 ^ 64 * 2 ^ n) :
    mantissa * 2 ^ scale ≤ (2 ^ 64 - 1) * 2 ^ n := by
  have pos : 0 < 2 ^ n := Nat.two_pow_pos n
  by_cases large : n ≤ scale
  · obtain ⟨more, rfl⟩ := Nat.exists_eq_add_of_le large
    have same : mantissa * 2 ^ (n + more) = mantissa * 2 ^ more * 2 ^ n := by
      rw [Nat.pow_add, Nat.mul_comm (2 ^ n), Nat.mul_assoc]
    rw [same] at below ⊢
    have units : mantissa * 2 ^ more < 2 ^ 64 := Nat.lt_of_mul_lt_mul_right below
    exact Nat.mul_le_mul_right _ (Nat.le_pred_of_lt units)
  · have small : 2 ^ scale ≤ 2 ^ n := Nat.pow_le_pow_right (by decide) (by omega)
    exact Nat.mul_le_mul (by omega) small

theorem roundedBelow {mantissa : Nat} (short : mantissa < twoTo 53) (scale n : Nat) :
    secondsBound * 1000000000 ≤
        Double.roundEven (mantissa * twoTo scale * 1000000000) (twoTo n) ↔
      secondsBound * twoTo n ≤ mantissa * twoTo scale := by
  unfold secondsBound
  simp only [twoToPow] at short ⊢
  have pos : 0 < 2 ^ n := Nat.two_pow_pos n
  constructor
  · intro reached
    refine Nat.le_of_not_lt fun below => ?_
    have unit := unitBelow short below
    generalize mantissa * 2 ^ scale = value at reached unit
    generalize 2 ^ n = one at pos reached unit
    have quotient : value * 1000000000 / one ≤ (2 ^ 64 - 1) * 1000000000 := by
      refine Nat.div_le_of_le_mul ?_
      calc value * 1000000000 ≤ (2 ^ 64 - 1) * one * 1000000000 := Nat.mul_le_mul_right _ unit
        _ = one * ((2 ^ 64 - 1) * 1000000000) := by rw [Nat.mul_comm (2 ^ 64 - 1), Nat.mul_assoc]
    have rounded := Double.roundBelow (value * 1000000000) one
    omega
  · intro reached
    refine Nat.le_trans ?_ (Double.roundAbove _ _)
    rw [Nat.le_div_iff_mul_le pos]
    calc 2 ^ 64 * 1000000000 * 2 ^ n = 2 ^ 64 * 2 ^ n * 1000000000 := Nat.mul_right_comm _ _ _
      _ ≤ mantissa * 2 ^ scale * 1000000000 := Nat.mul_le_mul_right _ reached

theorem overlongIff {negative : Bool} {mantissa scale : Nat} :
    Overlong (.finite negative mantissa scale) ↔
      negative = false ∧ secondsBound * Double.one ≤ mantissa * twoTo scale := Iff.rfl

theorem refusedIff {mantissa scale : Nat} :
    ofSeconds? (.finite false mantissa scale) = none ↔
      secondsBound * 1000000000 ≤ Double.roundEven (mantissa * twoTo scale * 1000000000) Double.one := by
  have choice {rounded bound : Nat} :
      (if rounded < bound then some (⟨rounded⟩ : Duration) else none) = none ↔ bound ≤ rounded := by
    by_cases counted : rounded < bound
    · simp [counted]
    · simp [counted, Nat.le_of_not_lt counted]
  unfold ofSeconds?
  simp only [Bool.false_and, Bool.false_eq_true, if_false]
  rw [choice]

theorem overlongPositive {d : Double} (overlong : Overlong d) : d.isNonNegative = true := by
  cases d with
  | nan => exact overlong.elim
  | infinite negative =>
    cases overlong
    exact Double.infinitePositive
  | finite negative mantissa scale =>
    cases overlong.1
    exact Double.finitePositive _ _

/- A span that cannot be counted though it is not below zero. -/
theorem notCounted {d : Double} (short : d.Short) (positive : d.isNonNegative = true) :
    ofSeconds? d = none ↔ Overlong d := by
  cases d with
  | nan => contradiction
  | infinite negative =>
    cases negative with
    | false => exact iff_of_true rfl rfl
    | true => exact absurd positive (by decide +kernel)
  | finite negative mantissa scale =>
    cases negative with
    | true =>
      have nothing := Double.negativeZero positive
      have pos : 0 < Double.one := twoToPos 1074
      have counted : Double.roundEven 0 Double.one = 0 := by simp [Double.roundEven, pos]
      refine iff_of_false (fun refused => ?_) fun reached => nomatch reached.1
      simp [ofSeconds?, nothing, counted, secondsBound, twoToPow] at refused
    | false =>
      have reached := roundedBelow short scale 1074
      rw [overlongIff, refusedIff, Double.one, reached]
      exact (and_iff_right rfl).symm

end Duration
end ConsoleShell
