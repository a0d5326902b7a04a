import ConsoleShell.Program
/-! The commands for the console itself: `clear`, `exit`, `history`, and the hidden `godmode`. -/
namespace ConsoleShell.Builtin

def clear : Declaration where
  name := "clear"
  description := "Clear the console."
  handler := fun _ _ => .clear .finish

def exit : Declaration where
  name := "exit"
  description := "Close this console session."
  handler := fun _ _ => .change .requestExit .finish

def numbered (lines : List Text) : Text :=
  let width := (Text.ofNat lines.length).length
  Text.unlines <| lines.zipIdx.map fun (line, i) =>
    Sgr.dim ++ Text.padLeft width (Text.ofNat (i + 1)) ++ Sgr.reset ++ "  " ++ Markup.escape line

def runHistory (arguments : Arguments) (_ : Caller) : Program :=
  if arguments.isOn "clear" then .change .clearHistory .finish
  else .inspect fun view => .say (numbered view.history) .finish

def history : Declaration where
  name := "history"
  description := "List the lines entered in this session."
  flags := some [(Flag.boolean "clear").withAlias "c" |>.describedAs "Forget the history instead."]
  handler := runHistory

def switchGodMode (on : Bool) : Program :=
  .change (.setGodMode on) <|
    if on then .say (Sgr.bold ++ Sgr.yellow ++ "God mode enabled." ++ Sgr.reset) .finish
    else .say "God mode disabled." .finish

def runGodmode (arguments : Arguments) (_ : Caller) : Program :=
  match arguments.positionals.head? with
  | none => .inspect fun view => switchGodMode !view.godMode
  | some state =>
    if state == "on" then switchGodMode true
    else if state == "off" then switchGodMode false
    else .fail (.neitherOnNorOff (Markup.unescape state))

def godmode : Declaration where
  name := "godmode"
  description := "Toggle the privileged mode shared by every session."
  hidden := true
  positionals := [
    { name := "state", description := some "on or off; toggles when omitted" }]
  handler := runGodmode

end ConsoleShell.Builtin
