import ConsoleShell.Text.Basic
/-! Shell quoting. A text is cut from the left into the longest chunks that can be written in one
way: bare, in single quotes, or in double quotes. -/
namespace ConsoleShell.Quoting

/-- The ways of writing that are open to every character of a chunk. -/
structure Ways where
  bare : Bool
  single : Bool
  double : Bool
  deriving DecidableEq, Repr

def isBare (c : Char) : Bool := c.isAlphanum || c ∈ ['+', '-', '.', '/', ':', '@', ']', '_']

namespace Ways

def ofChar (c : Char) : Ways :=
  { bare := isBare c
    single := !(c ∈ ['\'', '^', '\\'])
    double := !(c ∈ [Char.ofNat 0x60, '$', '!', '^']) }

/-- A caret may begin a chunk, and then only single quotes are open to it. -/
def ofFirst (c : Char) : Ways := if c = '^' then ⟨false, true, false⟩ else ofChar c

def meet (a b : Ways) : Ways := ⟨a.bare && b.bare, a.single && b.single, a.double && b.double⟩

def isNone (w : Ways) : Bool := !w.bare && !w.single && !w.double

def write (w : Ways) (chunk : Text) : Text :=
  if w.bare then chunk
  else if w.single then '\'' :: chunk ++ ['\'']
  else '"' :: chunk.flatMap (fun c => if c = '"' ∨ c = '\\' then ['\\', c] else [c]) ++ ['"']

end Ways

def chunksFrom (ways : Ways) (chunk : Text) : Text → List (Ways × Text)
  | [] => [(ways, chunk)]
  | c :: rest =>
    let both := ways.meet (Ways.ofChar c)
    if both.isNone then (ways, chunk) :: chunksFrom (Ways.ofFirst c) [c] rest
    else chunksFrom both (chunk ++ [c]) rest

def chunks : Text → List (Ways × Text)
  | [] => []
  | c :: rest => chunksFrom (Ways.ofFirst c) [c] rest

/-- The text as one word of a command line. No way of writing holds the character NUL; a text
with it is only shown, in single quotes. -/
def quote (text : Text) : Text :=
  if text.isEmpty then ['\'', '\'']
  else if text.contains (Char.ofNat 0) then
    '\'' :: text.flatMap (fun c => if c = '\'' then ['\\', '\''] else [c]) ++ ['\'']
  else (chunks text).flatMap fun (ways, chunk) => ways.write chunk

end ConsoleShell.Quoting
