import ConsoleShell.Text.LowerCase
/-! The eight colours of a terminal, their names, and their places in colour codes. -/
namespace ConsoleShell

inductive Color where
  | black
  | red
  | green
  | yellow
  | blue
  | magenta
  | cyan
  | white
  deriving DecidableEq, Repr

namespace Color

def all : List Color := [.black, .red, .green, .yellow, .blue, .magenta, .cyan, .white]

def name : Color → Text
  | .black => "black"
  | .red => "red"
  | .green => "green"
  | .yellow => "yellow"
  | .blue => "blue"
  | .magenta => "magenta"
  | .cyan => "cyan"
  | .white => "white"

def digit : Color → Nat
  | .black => 0
  | .red => 1
  | .green => 2
  | .yellow => 3
  | .blue => 4
  | .magenta => 5
  | .cyan => 6
  | .white => 7

def ofDigit? (digit : Nat) : Option Color := all[digit]?

def ofName? (name : Text) : Option Color :=
  all.find? fun color => color.name == Text.lower name

def code (color : Color) : Text := "\x1b[3" ++ Text.ofNat color.digit ++ "m"

end Color

structure Shade where
  color : Color
  bright : Bool
  deriving DecidableEq, Repr

end ConsoleShell
