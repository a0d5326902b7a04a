import ConsoleShell.Output.Terminal
import ConsoleShell.Shell.Control
/-! A dialogue of prompts and lines at standard input and output. What is to be written piles up
until it is taken. -/
namespace ConsoleShell.CommandLine

structure Dialogue where
  shell : Shell
  session : SessionId
  terminal : Terminal
  foreground : Option TaskId := none
  written : Text := []
  ended : Bool := false

namespace Dialogue

def flush (d : Dialogue) : Dialogue :=
  let (events, shell) := d.shell.takeEvents
  let (text, terminal) := d.terminal.applyAll events
  { d with shell, terminal, written := d.written ++ text }

def showPrompt (d : Dialogue) : Dialogue :=
  { d with
    written := d.written ++ d.shell.prompt d.session
    terminal := d.terminal.detach }

def start (shell : Shell) (ansi : Bool) : Dialogue :=
  let (session, shell) := shell.openSession
  showPrompt { shell := shell.subscribe, session, terminal := ⟨session, ansi, ansi, none⟩ }

def follow (d : Dialogue) : Dialogue :=
  let d := d.flush
  match d.foreground.bind d.shell.outcome? with
  | none => d
  | some _ =>
    let (leaving, shell) := d.shell.takeExit d.session
    let d := { d with shell, foreground := none }
    if leaving then { d with ended := true } else d.showPrompt

def enter (d : Dialogue) (line : Text) : Dialogue :=
  if d.ended then d
  else
    let (outcome, shell) := d.shell.handleInput d.session line
    let d := { d with shell := shell.settle }
    match outcome with
    | .consumed => d.follow
    | .dispatched task => { d with foreground := some task }.follow

def enterAll (d : Dialogue) (text : Text) : Dialogue :=
  ((Text.fields '\n' text).map (Text.dropLastIf '\r')).foldl enter d

def close (d : Dialogue) : Dialogue :=
  if d.ended then d
  else
    let shell := match d.foreground with
      | none => d.shell
      | some _ => (d.shell.cancel d.session).2.settle
    { { d with shell, foreground := none }.flush with ended := true }

def nextDue? (d : Dialogue) : Option Nat := d.shell.nextDue?

def moveTo (d : Dialogue) (time : Nat) : Dialogue :=
  if d.ended then d else { d with shell := d.shell.moveTo time }.follow

def passTo (d : Dialogue) (time : Nat) : Dialogue :=
  if d.ended then d
  else
    let shell := { d.shell with wall := time }
    { d with shell := shell.pass (time - shell.clock) }.follow

def waitUntil (stop : Dialogue → Bool) : Nat → Dialogue → Dialogue
  | 0, d => d
  | n + 1, d =>
    if stop d || d.ended then d
    else match d.nextDue? with
      | none => d
      | some due => waitUntil stop n (d.moveTo due)

def take (d : Dialogue) : Text × Dialogue := (d.written, { d with written := [] })

end Dialogue

end ConsoleShell.CommandLine
