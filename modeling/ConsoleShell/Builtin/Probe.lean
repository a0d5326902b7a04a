import ConsoleShell.Program
/-! The hidden command `probe` carries out single actions by name, one after another. It is for trying
a shell out, and a shell has it only where it is asked for. An action is a word, or a word with a
text behind an equals sign; the groups that it prints are counted from one. -/
namespace ConsoleShell.Builtin

namespace Probe

def pair (text : Text) : Text × Text := (Text.cut? '=' text).getD (text, [])

def bool (b : Bool) : Text := if b then "true" else "false"

def group (groups : List GroupId) (number : Text) : GroupId :=
  match Whole.read? (twoTo 64) number with
  | some (n + 1) => groups[n]?.getD ⟨0⟩
  | _ => ⟨0⟩

def note (text : Text) (next : Program) : Program := .say text next

def showState (caller : Caller) (view : View) : Text :=
  let job := (caller.job.map JobId.display).getD (Text.ofNat 0)
  "job " ++ job ++ " cancelled " ++ bool view.cancelled ++ " god " ++ bool view.godMode

def showValue (value : Option Text) : Text := (value.map Markup.escape).getD "none"

def onVariables? (action text : Text) (next : Program) : Option Program :=
  let (name, value) := pair text
  if action == "setvar" then some (.change (.setVariable name value) next)
  else if action == "setenv" then some (.change (.setEnvironment name value) next)
  else if action == "unsetvar" then
    some (.inspect fun view =>
      .change (.unsetVariable text) (note (bool (view.store.session.contains text)) next))
  else if action == "unsetenv" then
    some (.inspect fun view =>
      .change (.unsetEnvironment text) (note (bool (view.store.environment.contains text)) next))
  else if action == "var" then
    some (.inspect fun view => note (showValue (view.store.session.get? text)) next)
  else if action == "env" then
    some (.inspect fun view => note (showValue (view.store.environment.get? text)) next)
  else none

def onGroups? (groups : List GroupId) (action text : Text) (next : List GroupId → Program) :
    Option Program :=
  let (number, value) := pair text
  if action == "print" then some (.print .output text fun g => next (groups ++ [g]))
  else if action == "error" then some (.print .error text fun g => next (groups ++ [g]))
  else if action == "update" then
    some (.update (group groups number) value fun there =>
      note ("update " ++ bool there) (next groups))
  else if action == "set" then some (.update (group groups number) value fun _ => next groups)
  else if action == "delete" then
    some (.delete (group groups text) fun there => note ("delete " ++ bool there) (next groups))
  else if action == "clear" then some (.clear (next groups))
  else none

def onTime? (action text : Text) (next : Program) : Option Program :=
  if action == "sleep" then
    let span := Duration.ofMilliseconds ((Whole.read? (twoTo 64) text).getD 0)
    some (.sleep span (.fail .cancelled) next)
  else if action == "read" then
    some (.readLine fun line => note ("read " ++ Markup.escape line) next)
  else if action == "confirm" then
    some (.confirm text fun yes => note ("confirm " ++ bool yes) next)
  else if action == "wait" then some (.awaitCancel next)
  else if action == "cancelled" then some (.fail .cancelled)
  else if action == "check" then
    some (.inspect fun view => if view.cancelled then .fail .cancelled else next)
  else if action == "oncancel" then some (.onCancel ("cancelled " ++ text) next)
  else none

def onShell? (caller : Caller) (action text : Text) (next : Program) : Option Program :=
  if action == "fail" then some (.fail (.other (Markup.unescape text) []))
  else if action == "chain" then
    let cause := Markup.unescape text
    some (.fail (.other ("outer " ++ cause) ["inner " ++ cause]))
  else if action == "state" then some (.inspect fun view => note (showState caller view) next)
  else if action == "stdin" then
    let lines := caller.piped.map fun lines => Text.join ['|'] lines
    some (note (showValue lines) next)
  else if action == "replay" then
    some (.inspect fun view =>
      match view.jobs.find? fun job => some job.id.number = Whole.read? (twoTo 64) text with
      | some job => .replay job.output next
      | none => note "no job" next)
  else none

def run (caller : Caller) : List Text → List GroupId → Program
  | [], _ => .finish
  | word :: rest, groups =>
    let (action, text) := pair word
    let later := run caller rest groups
    let unknown : Program := .fail (.other ("probe: " ++ action) [])
    ((onGroups? groups action text (run caller rest)).or <| (onVariables? action text later).or <|
      (onTime? action text later).or <| onShell? caller action text later).getD unknown

end Probe

def probe : Declaration where
  name := "probe"
  hidden := true
  flags := none
  handler := fun arguments caller => Probe.run caller arguments.positionals []

end ConsoleShell.Builtin
