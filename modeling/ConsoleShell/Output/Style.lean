import ConsoleShell.Output.Color
import ConsoleShell.Number.Whole
/-! Styles of text and the parameters of the escape sequence that selects them, `ESC [ … m`. -/
namespace ConsoleShell

structure Style where
  foreground : Option Shade := none
  background : Option Shade := none
  bold : Bool := false
  dim : Bool := false
  italic : Bool := false
  underline : Bool := false
  deriving DecidableEq, Repr

namespace Style

def plain : Style := {}

def select (s : Style) (code : Nat) : Style :=
  if code = 0 then plain
  else if code = 1 then { s with bold := true }
  else if code = 2 then { s with dim := true }
  else if code = 3 then { s with italic := true }
  else if code = 4 then { s with underline := true }
  else if code = 22 then { s with bold := false, dim := false }
  else if code = 23 then { s with italic := false }
  else if code = 24 then { s with underline := false }
  else if 30 ≤ code ∧ code ≤ 37 then
    { s with foreground := (Color.ofDigit? (code - 30)).map (⟨·, false⟩) }
  else if code = 39 then { s with foreground := none }
  else if 40 ≤ code ∧ code ≤ 47 then
    { s with background := (Color.ofDigit? (code - 40)).map (⟨·, false⟩) }
  else if code = 49 then { s with background := none }
  else if 90 ≤ code ∧ code ≤ 97 then
    { s with foreground := (Color.ofDigit? (code - 90)).map (⟨·, true⟩) }
  else if 100 ≤ code ∧ code ≤ 107 then
    { s with background := (Color.ofDigit? (code - 100)).map (⟨·, true⟩) }
  else s

def isExtended (code : Nat) : Bool := code = 38 || code = 48

/-- The parameters from left to right. The description of an extended colour, one number behind 5
or three behind 2, is passed over; the colour itself cannot be shown. -/
def selectEach (s : Style) : List Nat → Style
  | [] => s
  | code :: rest =>
    if isExtended code then
      match rest with
      | [] => s
      | 5 :: [] => s
      | 5 :: _ :: later => selectEach s later
      | 2 :: _ :: _ :: _ :: later => selectEach s later
      | 2 :: _ => s
      | _ :: later => selectEach s later
    else selectEach (s.select code) rest

def selectAll (s : Style) (codes : List Nat) : Style :=
  if codes.isEmpty then plain else s.selectEach codes

/-- The parameters between semicolons. Empty ones are left out; one that is no number of 16 bits
counts as zero. -/
def readCodes (body : Text) : List Nat :=
  ((Text.fields ';' body).filter fun field => !field.isEmpty).map fun field =>
    (Whole.read? 65536 field).getD 0

def classes (s : Style) : List Text :=
  (if s.bold then ["ansi-bold".toList] else []) ++
  (if s.dim then ["ansi-dim".toList] else []) ++
  (if s.italic then ["ansi-italic".toList] else []) ++
  (if s.underline then ["ansi-underline".toList] else []) ++
  (match s.foreground with
    | some shade => [(if shade.bright then "ansi-bright-" else "ansi-") ++ shade.color.name]
    | none => []) ++
  (match s.background with
    | some shade => [(if shade.bright then "ansi-bg-bright-" else "ansi-bg-") ++ shade.color.name]
    | none => [])

def terminalCodes (s : Style) : List Nat :=
  (if s.bold then [1] else []) ++
  (if s.dim then [2] else []) ++
  (if s.underline then [4] else []) ++
  (if s.italic then [3] else []) ++
  (match s.background with
    | some shade => [(if shade.bright then 100 else 40) + shade.color.digit]
    | none => []) ++
  (match s.foreground with
    | some shade => [(if shade.bright then 90 else 30) + shade.color.digit]
    | none => [])

end Style

namespace Sgr

def reset : Text := "\x1b[0m"

def bold : Text := "\x1b[1m"

def dim : Text := "\x1b[2m"

def red : Text := Color.red.code

def yellow : Text := Color.yellow.code

def cyan : Text := Color.cyan.code

end Sgr

end ConsoleShell
