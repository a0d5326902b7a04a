import ConsoleShell.Markup
/-! Variable names: an ASCII letter or an underscore, then letters, digits and underscores. -/
namespace ConsoleShell.Variable

def startsName (c : Char) : Bool := c.isAlpha || c = '_'

def continuesName (c : Char) : Bool := c.isAlphanum || c = '_'

def isName : Text → Bool
  | [] => false
  | c :: rest => startsName c && rest.all continuesName

def takeName? : Text → Option (Text × Text)
  | [] => none
  | c :: rest =>
    if startsName c then some (c :: rest.takeWhile continuesName, rest.dropWhile continuesName)
    else none

end ConsoleShell.Variable
