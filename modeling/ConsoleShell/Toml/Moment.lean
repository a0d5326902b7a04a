import ConsoleShell.Number.Whole
/-! Dates, times of day and both together, as TOML writes them. What a text leaves out or spells in
another way makes no difference to the moment, so a moment has one written form. -/
namespace ConsoleShell.Toml

structure Date where
  year : Nat
  month : Nat
  day : Nat
  deriving DecidableEq, Repr

structure TimeOfDay where
  hour : Nat
  minute : Nat
  second : Nat
  nanosecond : Nat
  deriving DecidableEq, Repr

inductive Offset where
  | universal
  | minutes (n : Int)
  deriving DecidableEq, Repr

inductive Moment where
  | date (date : Date)
  | time (time : TimeOfDay)
  | both (date : Date) (time : TimeOfDay) (offset : Option Offset)
  deriving DecidableEq, Repr

def padded (width n : Nat) : Text :=
  let digits := Text.ofNat n
  List.replicate (width - digits.length) '0' ++ digits

def takeNumber? (count : Nat) (text : Text) : Option (Nat × Text) :=
  let digits := text.take count
  if digits.length = count && digits.all Char.isDigit then
    some (Whole.value digits, text.drop count)
  else none

namespace Date

def daysIn (year month : Nat) : Nat :=
  if month = 2 then
    if year % 4 = 0 ∧ (year % 100 ≠ 0 ∨ year % 400 = 0) then 29 else 28
  else if month ∈ [4, 6, 9, 11] then 30 else 31

def take? (text : Text) : Option (Date × Text) := do
  let (year, rest) ← takeNumber? 4 text
  let (month, rest) ← takeNumber? 2 (← Text.dropStart? ['-'] rest)
  let (day, rest) ← takeNumber? 2 (← Text.dropStart? ['-'] rest)
  if 1 ≤ month ∧ month ≤ 12 ∧ 1 ≤ day ∧ day ≤ daysIn year month then
    some (⟨year, month, day⟩, rest)
  else none

def display (d : Date) : Text :=
  padded 4 d.year ++ '-' :: padded 2 d.month ++ '-' :: padded 2 d.day

end Date

namespace TimeOfDay

/-- The first nine digits of a fraction count nanoseconds; those behind them say nothing. -/
def nanosecondsOf (digits : Text) : Nat :=
  Whole.value ((digits ++ List.replicate 9 '0').take 9)

def take? (text : Text) : Option (TimeOfDay × Text) := do
  let (hour, rest) ← takeNumber? 2 text
  let (minute, rest) ← takeNumber? 2 (← Text.dropStart? [':'] rest)
  if 24 ≤ hour ∨ 60 ≤ minute then none
  match rest with
  | ':' :: after =>
    let (second, rest) ← takeNumber? 2 after
    if 60 < second then none
    match rest with
    | '.' :: after =>
      let digits := after.takeWhile Char.isDigit
      if digits.isEmpty then none
      else some (⟨hour, minute, second, nanosecondsOf digits⟩, after.dropWhile Char.isDigit)
    | _ => some (⟨hour, minute, second, 0⟩, rest)
  | _ => some (⟨hour, minute, 0, 0⟩, rest)

def display (t : TimeOfDay) : Text :=
  let part : Text :=
    if t.nanosecond = 0 then []
    else '.' :: ((padded 9 t.nanosecond).reverse.dropWhile (· = '0')).reverse
  padded 2 t.hour ++ ':' :: padded 2 t.minute ++ ':' :: padded 2 t.second ++ part

end TimeOfDay

namespace Offset

def read? (text : Text) : Option (Option Offset) :=
  match text with
  | [] => some none
  | ['Z'] | ['z'] => some (some universal)
  | sign :: rest => do
    if sign ≠ '+' ∧ sign ≠ '-' then none
    let (hour, rest) ← takeNumber? 2 rest
    let (minute, rest) ← takeNumber? 2 (← Text.dropStart? [':'] rest)
    if 24 ≤ hour ∨ 60 ≤ minute ∨ !rest.isEmpty then none
    let distance : Int := hour * 60 + minute
    some (some (minutes (if sign = '-' then -distance else distance)))

def display : Offset → Text
  | universal => "Z"
  | minutes n =>
    (if n < 0 then '-' else '+') ::
      padded 2 (n.natAbs / 60) ++ ':' :: padded 2 (n.natAbs % 60)

end Offset

namespace Moment

def read? (text : Text) : Option Moment :=
  match Date.take? text with
  | some (d, []) => some (date d)
  | some (d, separator :: rest) => do
    if separator ≠ 'T' ∧ separator ≠ 't' ∧ separator ≠ ' ' then none
    let (t, rest) ← TimeOfDay.take? rest
    some (both d t (← Offset.read? rest))
  | none => do
    let (t, rest) ← TimeOfDay.take? text
    if rest.isEmpty then some (time t) else none

def display : Moment → Text
  | date d => d.display
  | time t => t.display
  | both d t offset => d.display ++ 'T' :: t.display ++ (offset.map Offset.display).getD []

end Moment

end ConsoleShell.Toml
