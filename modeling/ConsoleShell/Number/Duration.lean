import ConsoleShell.Number.Double
/-! Spans of time. A span is measured in nanoseconds, and a clock of milliseconds has passed it
at its first tick that is not before its end. -/
namespace ConsoleShell

structure Duration where
  nanoseconds : Nat
  deriving DecidableEq, Repr

namespace Duration

def secondsBound : Nat := twoTo 64

def ofMilliseconds (n : Nat) : Duration := ⟨n * 1000000⟩

/-- Seconds to the nearest nanosecond, a half to the even one; a span too long to count, or
one that is no span, has no measure. -/
def ofSeconds? : Double → Option Duration
  | .finite negative mantissa scale =>
    let nanoseconds := Double.roundEven (mantissa * twoTo scale * 1000000000) Double.one
    if negative && mantissa != 0 then none
    else if nanoseconds < secondsBound * 1000000000 then some ⟨nanoseconds⟩ else none
  | _ => none

def endBound : Nat := twoTo 63

/-- As long as a span lasts whose end is too far away to count. -/
def thirtyYears : Duration := ⟨30 * 365 * 86400 * 1000000000⟩

def ticks (d : Duration) : Nat :=
  let counted := if d.nanoseconds < endBound * 1000000000 then d else thirtyYears
  (counted.nanoseconds + 999999) / 1000000

end Duration

end ConsoleShell
