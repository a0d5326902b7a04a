import ConsoleShell.Text.Basic
/-! Lower case as far as a comparison with an ASCII word can see it. Of the characters outside
ASCII only the Kelvin sign has an ASCII letter as its whole lower case, so every other one is
left as it is: its lower case differs from every ASCII word just as it does itself. -/
namespace ConsoleShell.Text

def lowerChar (c : Char) : Char :=
  if c = '\u212A' then 'k' else c.toLower

/-- Equal to an ASCII word exactly when the lower case of the text is that word. -/
def lower (text : Text) : Text := text.map lowerChar

end ConsoleShell.Text
