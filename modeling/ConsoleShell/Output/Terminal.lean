import ConsoleShell.Output.Console
/-! A terminal that shows the console of one session. With cursor movement the group written last
is redrawn in place; without it every change is written below what is there. -/
namespace ConsoleShell

structure Terminal where
  session : SessionId
  ansi : Bool
  colored : Bool
  last : Option (GroupId × Nat) := none
  deriving DecidableEq, Repr

namespace Terminal

def paint (style : Style) (text : Text) : Text :=
  let codes := style.terminalCodes
  if codes.isEmpty then text
  else "\x1b[" ++ Text.join [';'] (codes.map Text.ofNat) ++ "m" ++ text ++ Sgr.reset

def formatSegment (t : Terminal) (s : Segment) : Text :=
  let text := Markup.unescape s.text
  if t.colored then paint s.style text else text

def formatLine (t : Terminal) (line : Line) : Text :=
  if t.ansi then line.segments.flatMap t.formatSegment else Markup.unescape line.plain

def writeLines (t : Terminal) (lines : List Line) : Text :=
  lines.flatMap fun line => t.formatLine line ++ ['\n']

def redrawable? (t : Terminal) (group : GroupId) : Option Nat :=
  match t.last with
  | some (id, height) => if t.ansi && id = group then some height else none
  | none => none

def erase (height : Nat) : Text :=
  let up : Text := if height = 0 then [] else "\x1b[" ++ Text.ofNat height ++ "A"
  up ++ "\r\x1b[J"

def apply (t : Terminal) (event : OutputEvent) : Text × Terminal :=
  if event.session ≠ t.session then ([], t)
  else match event.change with
    | .appended group _ lines =>
      (t.writeLines lines, { t with last := some (group, lines.length) })
    | .updated group lines =>
      let before := ((t.redrawable? group).map erase).getD []
      (before ++ t.writeLines lines, { t with last := some (group, lines.length) })
    | .deleted group =>
      match t.redrawable? group with
      | some height => (erase height, { t with last := none })
      | none => ([], t)
    | .cleared => (if t.ansi then "\x1b[2J\x1b[H" else [], { t with last := none })

def applyAll (t : Terminal) (events : List OutputEvent) : Text × Terminal :=
  events.foldl (fun (written, t) event =>
    let (more, t) := t.apply event
    (written ++ more, t)) ([], t)

def detach (t : Terminal) : Terminal := { t with last := none }

end Terminal

end ConsoleShell
