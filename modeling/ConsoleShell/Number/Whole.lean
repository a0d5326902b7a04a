import ConsoleShell.Number.Natural
import ConsoleShell.Text.Basic
/-! Unsigned whole numbers as they are typed: ASCII digits, with a plus sign allowed in front. -/
namespace ConsoleShell.Whole

/-- The value of a run of digits, most significant first, that continues `high`. -/
def valueFrom (high : Nat) (digits : Text) : Nat :=
  digits.foldl (fun value d => value * 10 + (d.toNat - '0'.toNat)) high

def value (digits : Text) : Nat := valueFrom 0 digits

def isNumeral (text : Text) : Bool := !text.isEmpty && text.all Char.isDigit

def dropPlus : Text → Text
  | '+' :: rest => rest
  | text => text

def read? (bound : Nat) (text : Text) : Option Nat :=
  let digits := dropPlus text
  if isNumeral digits && value digits < bound then some (value digits) else none

end ConsoleShell.Whole
