import ConsoleShell.Config.Basic
import ConsoleShell.Config.Path
import ConsoleShell.Toml.Document
/-! The file that holds the settings. What it leaves out keeps its standard value, and keys that
mean nothing here are passed over. -/
namespace ConsoleShell

inductive ConfigError where
  | path (error : PathError)
  | notFound (place : Text)
  | unreadable
  | malformed
  deriving DecidableEq, Repr

def ConfigError.message? : ConfigError → Option Text
  | .path error => some error.message
  | .notFound place => some ("Config file '" ++ place ++ "' does not exist.")
  | .unreadable | .malformed => none

namespace Config

def readText? (entries : Toml.Entries) (key standard : Text) : Option Text :=
  match entries.lookup key with
  | none => some standard
  | some (.string text) => some text
  | some _ => none

def readCount? (entries : Toml.Entries) (key : Text) (standard : Nat) : Option Nat :=
  match entries.lookup key with
  | none => some standard
  | some (.integer n) => if 0 ≤ n ∧ n < twoTo 64 then some n.toNat else none
  | some _ => none

def textEntry? (entry : Text × Toml.Value) : Option (Text × Text) :=
  match entry.2 with
  | .string text => some (entry.1, text)
  | _ => none

/-- The key under which a date or time stands where a table is looked for. -/
def momentKey : Text := "$__toml_private_datetime"

def readTable? (entries : Toml.Entries) (key : Text) (standard : Dict Text Text) :
    Option (Dict Text Text) :=
  match entries.lookup key with
  | none => some standard
  | some (.table _ inner) => (inner.mapM textEntry?).map Dict.ofList
  | some (.moment moment) => some (.ofList [(momentKey, moment.display)])
  | some _ => none

def ofEntries? (entries : Toml.Entries) : Option Config := do
  return {
    user := ← readText? entries "user" standard.user
    home := ← readText? entries "home" standard.home
    path := ← readText? entries "path" standard.path
    prompt := ← readText? entries "prompt" standard.prompt
    historyLimit := ← readCount? entries "history_limit" standard.historyLimit
    env := ← readTable? entries "env" standard.env
    aliases := ← readTable? entries "aliases" standard.aliases }

def ofText (text : Text) : Except ConfigError Config :=
  match (Toml.read? text).bind ofEntries? with
  | some config => .ok config
  | none => .error .malformed

def quoted (text : Text) : Text :=
  '"' :: text.flatMap (fun c => if c = '"' ∨ c = '\\' then ['\\', c] else [c]) ++ ['"']

def tableText (name : Text) (entries : Dict Text Text) : Text :=
  let lines : Text :=
    entries.entries.flatMap fun (key, value) => key ++ " = " ++ quoted value ++ ['\n']
  "\n[" ++ name ++ "]\n" ++ lines

/-- The settings as a file, for names that need no quotes and text on one line. -/
def toText (c : Config) : Text :=
  let line (key : Text) (value : Text) : Text := key ++ " = " ++ value ++ ['\n']
  line "user" (quoted c.user) ++ line "home" (quoted c.home) ++ line "path" (quoted c.path) ++
    line "prompt" (quoted c.prompt) ++ line "history_limit" (Text.ofNat c.historyLimit) ++
    tableText "env" c.env ++ tableText "aliases" c.aliases

inductive FileContent where
  | missing
  | unreadable
  | text (content : Text)
  deriving DecidableEq, Repr

def loadFrom (env : Text → Option Text) (file : Text → FileContent) (path : Text) :
    Except ConfigError Config := do
  let path ← match Path.expand env path with
    | .ok path => pure path
    | .error error => throw (.path error)
  match file path with
  | .missing => throw (.notFound path)
  | .unreadable => throw .unreadable
  | .text content => ofText content

/-- Reads the file at the usual place; where it is missing, the standard settings are written to it.
The second part is what is to be written. -/
def loadOrCreate (content : FileContent) : Except ConfigError Config × Option Text :=
  match content with
  | .missing => (.ok standard, some standard.toText)
  | .unreadable => (.error .unreadable, none)
  | .text content => (ofText content, none)

def directoryName : Text := "consh"

def fileName : Text := "config.toml"

end Config

end ConsoleShell
