import ConsoleShell.Number.Natural
/-! Binary floating-point numbers of 64 bits, held exactly. A finite number counts units of
`2 ^ -1074`, the distance between the smallest ones: it is `mantissa * 2 ^ scale` of them.
A mantissa stays below `2 ^ 53`, and below `2 ^ 52` only where the scale is zero, so every
number has one form. -/
namespace ConsoleShell

inductive Double where
  | nan
  | infinite (negative : Bool)
  | finite (negative : Bool) (mantissa scale : Nat)
  deriving DecidableEq, Repr

namespace Double

def one : Nat := twoTo 1074

def roundEven (num den : Nat) : Nat :=
  let quotient := num / den
  let rest := num % den
  if 2 * rest < den then quotient
  else if den < 2 * rest then quotient + 1
  else quotient + quotient % 2

/-- The number nearest to `num / den` units, a half to the even mantissa. -/
def ofUnits (negative : Bool) (num den : Nat) : Double :=
  let scale := (num / den).log2 - 52
  let mantissa := roundEven num (den * twoTo scale)
  let (mantissa, scale) :=
    if mantissa = twoTo 53 then (twoTo 52, scale + 1) else (mantissa, scale)
  if 2045 < scale then .infinite negative else .finite negative mantissa scale

def ofRatio (negative : Bool) (num den : Nat) : Double := ofUnits negative (num * one) den

def isFinite : Double → Bool
  | .finite .. => true
  | _ => false

/-- Place on the line of numbers, in units; the infinities lie beyond every finite number. -/
def place? : Double → Option Int
  | .nan => none
  | .infinite negative => some (if negative then -(twoTo 2100 : Int) else (twoTo 2100 : Int))
  | .finite negative mantissa scale =>
    some (if negative then -(mantissa * twoTo scale : Nat) else (mantissa * twoTo scale : Nat))

def compare (a b : Double) : Option Ordering := do
  some (Ord.compare (← a.place?) (← b.place?))

def toNat? : Double → Option Nat
  | .finite negative mantissa scale =>
    let units := mantissa * twoTo scale
    if units % one = 0 ∧ (negative = false ∨ units = 0) then some (units / one) else none
  | _ => none

def wholeBetween? (low high : Nat) (d : Double) : Option Nat := do
  let n ← d.toNat?
  if low ≤ n ∧ n ≤ high then some n else none

def divideBy (n : Nat) : Double → Double
  | .finite negative mantissa scale => ofUnits negative (mantissa * twoTo scale) n
  | other => other

def isNonNegative (d : Double) : Bool :=
  match d.place? with
  | some place => 0 ≤ place
  | none => false

def toBits : Double → Nat
  | .nan => 0x7FF8000000000000
  | .infinite negative => (if negative then twoTo 63 else 0) + 2047 * twoTo 52
  | .finite negative mantissa scale =>
    (if negative then twoTo 63 else 0) + scale * twoTo 52 + mantissa

def ofBits (bits : Nat) : Double :=
  let negative := bits / twoTo 63 % 2 = 1
  let exponent := bits / twoTo 52 % twoTo 11
  let fraction := bits % twoTo 52
  if exponent = 2047 then
    if fraction = 0 then .infinite negative else .nan
  else if exponent = 0 then .finite negative fraction 0
  else .finite negative (twoTo 52 + fraction) (exponent - 1)

end Double

end ConsoleShell
