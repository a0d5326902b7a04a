import ConsoleShell.Text.Basic
/-! Console markup. The five characters that markup gives a meaning stand in text as entities;
reading the entities back restores the text. -/
namespace ConsoleShell.Markup

def entity : Char → Text
  | '&' => "&amp;"
  | '<' => "&lt;"
  | '>' => "&gt;"
  | '"' => "&quot;"
  | '\'' => "&#39;"
  | c => [c]

def escape (text : Text) : Text := text.flatMap entity

/-- Entities are read back one kind after another. The ampersand comes last, so that an escaped
entity stays an entity; what is no entity stays as it is. -/
def unescape (text : Text) : Text :=
  let text := Text.replaceAll "&lt;" ['<'] text
  let text := Text.replaceAll "&gt;" ['>'] text
  let text := Text.replaceAll "&quot;" ['"'] text
  let text := Text.replaceAll "&#39;" ['\''] text
  Text.replaceAll "&amp;" ['&'] text

end ConsoleShell.Markup
