import ConsoleShell.Number.Decimal
/-! The shortest decimal notation that reads back as the same binary number. The reals that
round to a number form an interval around it, with its ends where the mantissa is even. For one
digit, two digits and so on, the two neighbours of the number on that decimal grid are tried;
the first grid with a neighbour inside the interval wins, and of two such neighbours the nearer, or
the greater one where the number lies half-way between them. -/
namespace ConsoleShell

/-- A positive number and the interval that rounds to it, all in quarters of a unit. -/
structure RoundingInterval where
  low : Nat
  centre : Nat
  high : Nat
  closed : Bool

namespace RoundingInterval

/-- Below a power of two the neighbours are twice as dense as above it. -/
def ofParts (mantissa scale : Nat) : RoundingInterval :=
  let below := if mantissa = twoTo 52 ∧ 0 < scale then 1 else 2
  { low := (4 * mantissa - below) * twoTo scale
    centre := 4 * mantissa * twoTo scale
    high := (4 * mantissa + 2) * twoTo scale
    closed := mantissa % 2 = 0 }

def holds (i : RoundingInterval) (num den : Nat) : Bool :=
  if i.closed then i.low * den ≤ num && num ≤ i.high * den
  else i.low * den < num && num < i.high * den

def one : Nat := 4 * Double.one

def wholeDigits (i : RoundingInterval) : Int :=
  if one ≤ i.centre then (Nat.toDigits 10 (i.centre / one)).length
  else 1 - (Nat.toDigits 10 (one / i.centre)).length

def neighbour? (i : RoundingInterval) (digits : Nat) : Option Decimal :=
  let exponent := i.wholeDigits - digits
  let (up, down) :=
    if exponent < 0 then (1, tenTo exponent.natAbs) else (tenTo exponent.natAbs, 1)
  let lower := i.centre * down / (up * one)
  let candidates :=
    if i.centre * down * 2 < (2 * lower + 1) * (up * one) then [lower, lower + 1]
    else [lower + 1, lower]
  (candidates.find? fun n => i.holds (n * up * one) down).map fun n => ⟨n, exponent⟩

def shortest (i : RoundingInterval) : Decimal :=
  ((List.range 17).findSome? fun digits => i.neighbour? (digits + 1)).getD ⟨0, 0⟩

end RoundingInterval

def Decimal.positional (d : Decimal) : Text :=
  let digits := Text.ofNat d.digits
  if 0 ≤ d.exponent then digits ++ List.replicate d.exponent.natAbs '0'
  else
    let places := d.exponent.natAbs
    let padded := List.replicate (places + 1 - digits.length) '0' ++ digits
    let part := ((padded.drop (padded.length - places)).reverse.dropWhile (· = '0')).reverse
    let whole := padded.take (padded.length - places)
    if part.isEmpty then whole else whole ++ '.' :: part

def Double.display : Double → Text
  | .nan => "NaN"
  | .infinite negative => if negative then "-inf" else "inf"
  | .finite negative mantissa scale =>
    let digits : Text :=
      if mantissa = 0 then ['0']
      else (RoundingInterval.ofParts mantissa scale).shortest.positional
    if negative then '-' :: digits else digits

end ConsoleShell
