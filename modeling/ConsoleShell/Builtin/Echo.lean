import ConsoleShell.Program
/-! The command `echo` prints its arguments. -/
namespace ConsoleShell.Builtin

def colorByName (name : Text) : Except Failure Color :=
  match Color.ofName? name with
  | some color => .ok color
  | none => .error (.unknownColor name)

def runEcho (arguments : Arguments) (_ : Caller) : Program :=
  let text := Text.join [' '] arguments.positionals
  let kind := if arguments.isOn "error" then OutputKind.error else .output
  match arguments.text? "color" with
  | none => .print kind text fun _ => .finish
  | some name =>
    .orFail (colorByName name) fun color =>
      .print kind (color.code ++ text ++ Sgr.reset) fun _ => .finish

def echo : Declaration where
  name := "echo"
  description := "Print text to the console."
  flags := some [
    (Flag.string "color").withAlias "c" |>.withChoices (Color.all.map Color.name)
      |>.describedAs "Print in one of the eight ANSI colors.",
    (Flag.boolean "error").withAlias "e" |>.describedAs "Print as an error."]
  positionals := [{ name := "text", variadic := true }]
  handler := runEcho

end ConsoleShell.Builtin
