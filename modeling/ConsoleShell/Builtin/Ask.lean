import ConsoleShell.Builtin.Format
import ConsoleShell.Program
/-! The commands that want a line from the user: `read` keeps it, and `confirm` asks a question. -/
namespace ConsoleShell.Builtin

def runRead (arguments : Arguments) (_ : Caller) : Program :=
  let name := arguments.positionals.headD []
  let keep : Program := .readLine fun line => .change (.setVariable name line) .finish
  .orFail (requireName name) fun _ =>
    match arguments.text? "prompt" with
    | some prompt => .say prompt keep
    | none => keep

def read : Declaration where
  name := "read"
  description := "Read the next input line into a session variable."
  flags := some [
    (Flag.string "prompt").withAlias "p" |>.describedAs "Text to print before waiting."]
  positionals := [{ name := "name", required := true }]
  handler := runRead

def runConfirm (arguments : Arguments) (_ : Caller) : Program :=
  let message : Text :=
    if arguments.positionals.isEmpty then "Continue?" else Text.join [' '] arguments.positionals
  .confirm message fun yes => .say (if yes then "yes" else "no") .finish

def confirm : Declaration where
  name := "confirm"
  description := "Ask a yes/no question and print the answer."
  positionals := [{ name := "message", variadic := true }]
  handler := runConfirm

end ConsoleShell.Builtin
