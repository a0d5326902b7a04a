import ConsoleShell.Flag.Schema
/-! The line that shows how a command is called. Hidden flags are left out. -/
namespace ConsoleShell

namespace Flag

def shortAlias? (f : Flag) : Option Text := f.aliases.find? fun a => a.length = 1

def usage (f : Flag) : Text :=
  let names := match f.shortAlias? with
    | some letter => '-' :: letter ++ "|--" ++ f.name
    | none => "--" ++ f.name
  let call := if f.kind = .boolean then names else names ++ " <" ++ f.kind.label ++ ">"
  if f.required then call else '[' :: call ++ "]"

end Flag

def Positional.usage (p : Positional) : Text :=
  let name := if p.required then '<' :: p.name ++ ">" else '[' :: p.name ++ "]"
  if p.variadic then name ++ "..." else name

namespace Schema

def visibleFlags (s : Schema) : List Flag := s.flags.filter fun f => !f.hidden

def usage (command : Text) (s : Schema) (positionals : List Positional) : Text :=
  Text.join [' '] (command :: s.visibleFlags.map Flag.usage ++ positionals.map Positional.usage)

end Schema

end ConsoleShell
