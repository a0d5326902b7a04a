import ConsoleShell.CommandLine.Dialogue
import ConsoleShell.CommandLine.Errand
import ConsoleShell.CommandLine.Options
import ConsoleShell.CommandLine.Start
import ConsoleShell.Config.File
/-! The program. Here are the file of the settings, the lines of standard input and the time of day;
everything else is decided elsewhere. -/
namespace ConsoleShell.CommandLine

def environmentFor (path : Text) : IO (Text → Option Text) := do
  let entries ← (Path.names path).mapM fun name => do
    let value ← IO.getEnv (String.ofList name)
    return (name, value.map String.toList)
  return fun name => (entries.lookup name).join

def readFile (path : Text) : IO Config.FileContent := do
  try
    return .text (← IO.FS.readFile (String.ofList path)).toList
  catch
    | .noFileOrDirectory .. => return .missing
    | _ => return .unreadable

def loadConfig (options : Options) : IO (Except ConfigError Config) := do
  match options.config with
  | some path =>
    let env ← environmentFor path
    let content ← match Path.expand env path with
      | .ok expanded => readFile expanded
      | .error _ => pure .missing
    return Config.loadFrom env (fun _ => content) path
  | none =>
    let home := ((← IO.getEnv "HOME").getD "").toList
    let base := ((← IO.getEnv "XDG_CONFIG_HOME").map String.toList).getD (home ++ "/.config".toList)
    let directory := base ++ '/' :: Config.directoryName
    let place := directory ++ '/' :: Config.fileName
    let (config, written) := Config.loadOrCreate (← readFile place)
    if let some text := written then
      IO.FS.createDirAll (String.ofList directory)
      IO.FS.writeFile (String.ofList place) (String.ofList text)
    return config

def write (text : Text) : IO Unit := do
  let out ← IO.getStdout
  out.putStr (String.ofList text)
  out.flush

def readLine : IO (Option Text) := do
  let line := (← (← IO.getStdin).getLine).toList
  if line.isEmpty then return none
  return some (if ['\n'].isSuffixOf line then Text.dropLastIf '\r' line.dropLast else line)

def milliseconds (start : Nat) : IO Nat := return (← IO.monoMsNow) - start

partial def finishLine (start : Nat) (ansi : Bool) (e : Errand) : IO UInt32 := do
  match e.outcome? with
  | some outcome =>
    let (text, code) := e.report ansi outcome
    write text
    return code.toUInt32
  | none =>
    IO.sleep 2
    let time ← milliseconds start
    let shell := { e.shell with wall := time }
    finishLine start ansi { e with shell := shell.pass (time - shell.clock) }

partial def converse (start : Nat) (input : Task (Except IO.Error (Option Text))) (d : Dialogue) :
    IO UInt32 := do
  let (text, d) := d.take
  write text
  if d.ended then return 0
  let d := d.passTo (← milliseconds start)
  if ← IO.hasFinished input then
    match input.get with
    | .ok (some line) => converse start (← IO.asTask readLine .dedicated) (d.enter line)
    | .ok none => converse start input d.close
    | .error error =>
      IO.eprintln s!"Error: Failed to read standard input: {error}"
      return 1
  else
    IO.sleep 2
    converse start input d

def throws (seed : Nat) (n : Nat) : Nat :=
  Nat.repeat (fun k => (k * 6364136223846793005 + 1442695040888963407) % twoTo 64) (n + 1) seed / twoTo 33

def run (options : Options) : IO UInt32 := do
  let config ← match ← loadConfig options with
    | .ok config => pure config
    | .error error =>
      IO.eprintln (String.ofList ("Error: ".toList ++
        error.message?.getD "the settings could not be read"))
      return startFailureCode.toUInt32
  let shell ← match newShell config with
    | .ok shell =>
      let seed := (← IO.getRandomBytes 8).foldl (fun n byte => n * 256 + byte.toNat) 0
      pure { shell with dice := throws seed }
    | .error error =>
      IO.eprintln (String.ofList ("Error: ".toList ++ error.message))
      return startFailureCode.toUInt32
  let ansi := !options.noColor && (← (← IO.getStdout).isTty)
  let start ← IO.monoMsNow
  match options.command with
  | some line => finishLine start ansi (Errand.start shell line)
  | none => converse start (← IO.asTask readLine .dedicated) (Dialogue.start shell ansi)

end ConsoleShell.CommandLine

open ConsoleShell CommandLine in
def main (words : List String) : IO UInt32 := do
  match CommandLine.read? (words.map String.toList) with
  | some (.start options) => run options
  | some .help => write CommandLine.help; return 0
  | some .version => write CommandLine.version; return 0
  | none =>
    IO.eprintln "error: these arguments make no sense; try '--help'"
    return misuseCode.toUInt32
