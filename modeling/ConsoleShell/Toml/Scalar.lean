import ConsoleShell.Toml.Value
import ConsoleShell.Number.Decimal
/-! Numbers, truth values, dates and times as TOML writes them. -/
namespace ConsoleShell.Toml

def joinedDigits? (isDigit : Char → Bool) (text : Text) : Option Text :=
  let runs := Text.fields '_' text
  if runs.all fun run => !run.isEmpty && run.all isDigit then some runs.flatten else none

def isHexDigit (c : Char) : Bool :=
  c.isDigit || ('a' ≤ c && c ≤ 'f') || ('A' ≤ c && c ≤ 'F')

def hexDigitValue (c : Char) : Nat :=
  if c.isDigit then c.toNat - '0'.toNat else c.toLower.toNat - 'a'.toNat + 10

def valueInBase (base : Nat) (digits : Text) : Nat :=
  digits.foldl (fun value c => value * base + hexDigitValue c) 0

def isTight : Text → Bool
  | '0' :: _ :: _ => false
  | _ => true

def wordInteger? (n : Int) : Option Value :=
  if -(twoTo 127 : Int) ≤ n ∧ n < twoTo 128 then some (.integer n) else none

def cutSign : Text → Bool × Text
  | '-' :: rest => (true, rest)
  | '+' :: rest => (false, rest)
  | text => (false, text)

def integer? (text : Text) : Option Value :=
  match text with
  | '0' :: 'x' :: digits => do
    wordInteger? (valueInBase 16 (← joinedDigits? isHexDigit digits))
  | '0' :: 'o' :: digits => do
    wordInteger? (valueInBase 8 (← joinedDigits? (fun c => '0' ≤ c && c ≤ '7') digits))
  | '0' :: 'b' :: digits => do
    wordInteger? (valueInBase 2 (← joinedDigits? (fun c => c = '0' || c = '1') digits))
  | _ => do
    let (negative, typed) := cutSign text
    let digits ← joinedDigits? Char.isDigit typed
    if !isTight digits then none
    wordInteger? (if negative then -(valueInBase 10 digits : Int) else valueInBase 10 digits)

def float? (text : Text) : Option Value := do
  let (_, unsigned) := cutSign text
  if unsigned == "inf" || unsigned == "nan" then return .float
  let isPower (c : Char) : Bool := c = 'e' || c = 'E'
  let mantissa := unsigned.takeWhile fun c => !isPower c
  let power := (unsigned.dropWhile fun c => !isPower c).drop 1
  let hasPower := unsigned.any isPower
  let power ← if hasPower then joinedDigits? Char.isDigit (cutSign power).2 else some []
  let (whole, part) ← match Text.cut? '.' mantissa with
    | some (whole, part) => do
      some (← joinedDigits? Char.isDigit whole, ← joinedDigits? Char.isDigit part)
    | none => do
      if !hasPower then none
      some (← joinedDigits? Char.isDigit mantissa, [])
  if !isTight whole then none
  let sign := ((unsigned.dropWhile fun c => !isPower c).drop 1).take 1
  let exponent : Int :=
    if sign == ['-'] then -(Whole.value power : Int) else Whole.value power
  let number := Decimal.toDouble false ⟨Whole.value (whole ++ part), exponent - part.length⟩
  if number.isFinite then some .float else none

def isScalarCharacter (c : Char) : Bool :=
  c.isAlphanum || c ∈ ['_', '+', '-', '.', ':']

/-- The characters of an unquoted value. A blank belongs to it only between a date and a time. -/
def takeScalar (text : Text) : Text × Text :=
  let first := text.takeWhile isScalarCharacter
  let rest := text.dropWhile isScalarCharacter
  match Date.take? first, rest with
  | some (_, []), ' ' :: d :: after =>
    if d.isDigit then
      (first ++ ' ' :: (d :: after).takeWhile isScalarCharacter,
        (d :: after).dropWhile isScalarCharacter)
    else (first, rest)
  | _, _ => (first, rest)

def scalar? (text : Text) : Option Value :=
  if text == "true" then some (.boolean true)
  else if text == "false" then some (.boolean false)
  else ((integer? text).or (float? text)).or ((Moment.read? text).map .moment)

end ConsoleShell.Toml
