import ConsoleShell.Program
/-! The commands that take time: `sleep` waits, and `progress` draws a bar that grows in place. -/
namespace ConsoleShell.Builtin

def runSleep (arguments : Arguments) (_ : Caller) : Program :=
  let typed := arguments.positionals.headD []
  match (Double.read? typed).filter fun seconds => seconds.isFinite && seconds.isNonNegative with
  | none => .fail (.invalidDuration (Markup.unescape typed))
  | some seconds =>
    match Duration.ofSeconds? seconds with
    | none => .crash
    | some span => .sleep span (.fail .cancelled) .finish

def sleep : Declaration where
  name := "sleep"
  description := "Wait for a number of seconds. Ctrl+C stops it."
  positionals := [{ name := "seconds", required := true }]
  handler := runSleep

namespace Progress

def barWidth : Nat := 20

def maxSteps : Nat := 1000

def bar (done total : Nat) : Text :=
  let filled := min barWidth (done * barWidth / max 1 total)
  let percent := done * 100 / max 1 total
  '[' :: Sgr.cyan ++ List.replicate filled '#' ++ Sgr.reset ++
    List.replicate (barWidth - filled) ' ' ++ "] " ++ Text.padLeft 3 (Text.ofNat percent) ++ "%"

def stopped (done total : Nat) : Text :=
  bar done total ++ Sgr.dim ++ " cancelled at " ++ Text.ofNat done ++ "/" ++ Text.ofNat total ++
    Sgr.reset

def walk (group : GroupId) (delay : Duration) (total : Nat) : Nat → Program
  | 0 => .update group ("Done: " ++ Text.ofNat total ++ " steps completed.") fun _ => .finish
  | left + 1 =>
    let done := total - (left + 1)
    .sleep delay
      (.update group (stopped done total) fun _ => .fail .cancelled)
      (.update group (bar (done + 1) total) fun _ => walk group delay total left)

end Progress

def runProgress (arguments : Arguments) (_ : Caller) : Program :=
  match (arguments.number? "steps").bind (Double.wholeBetween? 1 Progress.maxSteps) with
  | none => .fail .stepsOutOfRange
  | some steps =>
    let delay := (arguments.number? "delay").getD (.ofRatio false 100 1)
    if !(delay.isFinite && delay.isNonNegative) then .fail .invalidDelay
    else match Duration.ofSeconds? (delay.divideBy 1000) with
      | none => .crash
      | some delay =>
        .print .output (Progress.bar 0 steps) fun group =>
          Progress.walk group delay steps steps

def progress : Declaration where
  name := "progress"
  description := "Show a progress bar that updates in place."
  flags := some [
    (Flag.number "steps").withAlias "s" |>.withDefault "10" |>.describedAs "Number of steps.",
    (Flag.number "delay").withAlias "d" |>.withDefault "100"
      |>.describedAs "Milliseconds between steps."]
  handler := runProgress

end ConsoleShell.Builtin
