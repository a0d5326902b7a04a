import ConsoleShell.Variable.Store
/-! The settings of the shell, and the variables that a new session starts with. -/
namespace ConsoleShell

structure Config where
  user : Text
  home : Text
  path : Text
  prompt : Text
  historyLimit : Nat
  env : Dict Text Text
  aliases : Dict Text Text
  deriving DecidableEq, Repr

namespace Config

def standard : Config where
  user := "guest"
  home := "/home/guest"
  path := "/usr/local/bin:/usr/bin:/bin"
  prompt := "\x7buser\x7d@desktop:\x7bcwd\x7d$ "
  historyLimit := 500
  env := .empty
  aliases := .ofList [("cls", "clear"), ("h", "history")]

def initialVariables (c : Config) : Variables :=
  let standard : List (Text × Text) :=
    [("USER", c.user), ("HOME", c.home), ("PATH", c.path), ("PWD", c.home),
      ("SHELL", "/bin/consh"), ("TERM", "consh-term")]
  (standard ++ c.env.entries).foldl (fun v (name, value) => v.setEnvironment name value) {}

end Config

end ConsoleShell
