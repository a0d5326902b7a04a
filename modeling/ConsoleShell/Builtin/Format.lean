import ConsoleShell.Failure
import ConsoleShell.Variable.Name
/-! Rows and names as the built-in commands show and check them. -/
namespace ConsoleShell.Builtin

def columns (rows : List (Text × Text)) (style : Text) : Text :=
  let width := (rows.map fun row => row.1.length).foldl max 0
  Text.unlines <| rows.map fun (key, value) =>
    "  " ++ style ++ Markup.escape key ++ Sgr.reset ++
      List.replicate (width - key.length) ' ' ++ "  " ++ Markup.escape value

def assignments (rows : List (Text × Text)) : Text :=
  Text.unlines (rows.map fun (name, value) => Markup.escape name ++ "=" ++ Markup.escape value)

def requireName (name : Text) : Except Failure Unit :=
  if Variable.isName name then .ok () else .error (.invalidVariableName (Markup.unescape name))

end ConsoleShell.Builtin
