import ConsoleShell.Number.Whole
import ConsoleShell.Number.Double
/-! Numbers in decimal notation: an optional sign, digits with an optional point among or beside
them, and an optional power of ten. The names of the infinities and of the undefined number
are read in any case. -/
namespace ConsoleShell

/-- The number `digits * 10 ^ exponent`, as it is written. -/
structure Decimal where
  digits : Nat
  exponent : Int
  deriving DecidableEq, Repr

namespace Decimal

def readExponent? (text : Text) : Option Int :=
  let (negative, digits) := match text with
    | '-' :: rest => (true, rest)
    | '+' :: rest => (false, rest)
    | _ => (false, text)
  if Whole.isNumeral digits then
    some (if negative then -(Whole.value digits : Int) else Whole.value digits)
  else none

def read? (text : Text) : Option Decimal := do
  let whole := text.takeWhile Char.isDigit
  let rest := text.dropWhile Char.isDigit
  let (part, rest) := match rest with
    | '.' :: after => (after.takeWhile Char.isDigit, after.dropWhile Char.isDigit)
    | _ => ([], rest)
  if whole.isEmpty && part.isEmpty then none
  let power ← match rest with
    | [] => some 0
    | c :: after => if c = 'e' || c = 'E' then readExponent? after else none
  some ⟨Whole.value (whole ++ part), power - part.length⟩

/-- The nearest binary number. A power of ten far beyond the range is not computed. -/
def toDouble (negative : Bool) (d : Decimal) : Double :=
  let size : Int := (Nat.toDigits 10 d.digits).length + d.exponent
  if d.digits = 0 || size < -330 then .finite negative 0 0
  else if 310 < size then .infinite negative
  else if d.exponent < 0 then Double.ofRatio negative d.digits (tenTo d.exponent.natAbs)
  else Double.ofRatio negative (d.digits * tenTo d.exponent.natAbs) 1

end Decimal

def Double.read? (text : Text) : Option Double :=
  let (negative, unsigned) := match text with
    | '-' :: rest => (true, rest)
    | '+' :: rest => (false, rest)
    | _ => (false, text)
  let name := unsigned.map Char.toLower
  if name == "inf" || name == "infinity" then some (.infinite negative)
  else if name == "nan" then some .nan
  else (Decimal.read? unsigned).map (Decimal.toDouble negative)

end ConsoleShell
