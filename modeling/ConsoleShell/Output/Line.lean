import ConsoleShell.Output.Style
import ConsoleShell.Markup
/-! Lines of styled text. A line is a list of segments, runs of characters of one style; rendering
reads the escape sequences of a text and drops those that select no style. -/
namespace ConsoleShell

structure Segment where
  text : Text
  style : Style
  deriving DecidableEq, Repr

structure Line where
  segments : List Segment := []
  deriving DecidableEq, Repr

namespace Segment

def markup (s : Segment) : Text :=
  if s.style = Style.plain then s.text
  else "<span class=\"" ++ Text.join [' '] s.style.classes ++ "\">" ++ s.text ++ "</span>"

end Segment

namespace Line

def markup (line : Line) : Text := line.segments.flatMap Segment.markup

def plain (line : Line) : Text := line.segments.flatMap Segment.text

def push (segments : List Segment) (style : Style) (c : Char) : List Segment :=
  match segments.getLast? with
  | some last =>
    if last.style = style then segments.dropLast ++ [{ last with text := last.text ++ [c] }]
    else segments ++ [⟨[c], style⟩]
  | none => [⟨[c], style⟩]

def ofStyled (characters : List (Char × Style)) : Line :=
  ⟨characters.foldl (fun segments (c, style) => push segments style c) []⟩

end Line

inductive EscapeState where
  | text
  | escape
  | parameters (body : Text)
  deriving DecidableEq, Repr

namespace Render

def escapeCharacter : Char := '\x1b'

def endsSequence (c : Char) : Bool := '\x40' ≤ c && c ≤ '\x7e'

/-- The characters of a text, each with the style in force. An escape sequence with another letter
than `m` at its end is dropped, as is one without an end; behind a lone escape one character goes. -/
def styledFrom (style : Style) : EscapeState → Text → List (Char × Style)
  | _, [] => []
  | .text, c :: rest =>
    if c = escapeCharacter then styledFrom style .escape rest
    else (c, style) :: styledFrom style .text rest
  | .escape, c :: rest =>
    if c = '[' then styledFrom style (.parameters []) rest else styledFrom style .text rest
  | .parameters body, c :: rest =>
    if c = 'm' then styledFrom (style.selectAll (Style.readCodes body)) .text rest
    else if endsSequence c then styledFrom style .text rest
    else styledFrom style (.parameters (body ++ [c])) rest

def styled (text : Text) : List (Char × Style) := styledFrom Style.plain .text text

def line (text : Text) : Line := Line.ofStyled (styled text)

end Render

inductive OutputKind where
  | output
  | error
  deriving DecidableEq, Repr

namespace Render

/-- The lines of a text. A line feed at its end ends the last line, and a carriage return before
a line feed belongs to it. -/
def rawLines (text : Text) : List Text :=
  (Text.fields '\n' (Text.dropLastIf '\n' text)).map (Text.dropLastIf '\r')

def text (kind : OutputKind) (source : Text) : List Line :=
  (rawLines source).map fun raw =>
    match kind with
    | .output => line raw
    | .error => line (Sgr.red ++ raw ++ Sgr.reset)

end Render

end ConsoleShell
