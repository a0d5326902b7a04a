import ConsoleShell.Builtin.Format
import ConsoleShell.Program
/-! The command `help` lists the commands, or tells how one is used. Hidden ones are left out. -/
namespace ConsoleShell.Builtin

def flagSynopsis (f : Flag) : Text :=
  let spell (name : Text) : Text := if name.length = 1 then '-' :: name else "--" ++ name
  let names := Text.join ", " (f.aliases.map spell ++ ["--" ++ f.name])
  if f.kind = .boolean then names else names ++ " <" ++ f.kind.label ++ ">"

def flagDetails (f : Flag) : Text :=
  let choices : Text := match f.choices with
    | some allowed => " [" ++ Text.join ['|'] allowed ++ "]"
    | none => []
  let default : Text := match f.default with
    | some value => " (default: " ++ value ++ ")"
    | none => []
  let required : Text := if f.required then " (required)" else []
  Text.trim (f.description.getD [] ++ choices ++ default ++ required)

def describeCommand (c : Command Unit) : Text :=
  let usage := Sgr.bold ++ "usage:" ++ Sgr.reset ++ " " ++ Markup.escape c.usage
  let description : Text :=
    if c.description.isEmpty then [] else '\n' :: Markup.escape c.description
  let rows := c.visibleFlags.map fun f => (flagSynopsis f, flagDetails f)
  let flags : Text :=
    if rows.isEmpty then []
    else '\n' :: Sgr.bold ++ "Flags:" ++ Sgr.reset ++ "\n" ++ columns rows Sgr.cyan
  usage ++ description ++ flags

def runHelp (arguments : Arguments) (_ : Caller) : Program :=
  .inspect fun view =>
    let visible := view.commands.filter fun c => !c.hidden
    match arguments.positionals.head? with
    | none =>
      let rows := visible.map fun c => (c.name, c.description)
      .say (Sgr.bold ++ "Commands:" ++ Sgr.reset ++ "\n" ++ columns rows Sgr.cyan) .finish
    | some typed =>
      let name := Markup.unescape typed
      match visible.find? fun c => c.name = name with
      | some c => .say (describeCommand c) .finish
      | none => .fail (.noHelp name)

def help : Declaration where
  name := "help"
  description := "List commands, or show how to use one."
  positionals := [{ name := "command" }]
  handler := runHelp

end ConsoleShell.Builtin
