import ConsoleShell.Text.Basic
/-! The words behind the program's name. Options come in a long and a short form, short ones can be
joined, and each is given at most once. The first word that makes no sense ends the reading. -/
namespace ConsoleShell.CommandLine

structure Options where
  config : Option Text := none
  noColor : Bool := false
  verbose : Bool := false
  command : Option Text := none
  deriving DecidableEq, Repr

inductive Request where
  | help
  | version
  | start (options : Options)
  deriving DecidableEq, Repr

inductive Choice where
  | noColor
  | verbose
  | config
  | command
  | help
  | version
  deriving DecidableEq, Repr

namespace Choice

def takesValue (c : Choice) : Bool := c = config || c = command

def ofName? (name : Text) : Option Choice :=
  if name == "config" then some config
  else if name == "no-color" then some noColor
  else if name == "verbose" then some verbose
  else if name == "command" then some command
  else if name == "help" then some help
  else if name == "version" then some version
  else none

def ofLetter? (c : Char) : Option Choice :=
  if c = 'v' then some verbose
  else if c = 'c' then some command
  else if c = 'h' then some help
  else if c = 'V' then some version
  else none

end Choice

inductive Reading where
  | further (options : Options) (pending : Option Choice)
  | finished (request : Request)
  deriving DecidableEq, Repr

def Options.give? (o : Options) (choice : Choice) (value : Text) : Option Reading :=
  match choice with
  | .noColor => if o.noColor then none else some (.further { o with noColor := true } none)
  | .verbose => if o.verbose then none else some (.further { o with verbose := true } none)
  | .config =>
    if o.config.isSome then none else some (.further { o with config := some value } none)
  | .command =>
    if o.command.isSome then none else some (.further { o with command := some value } none)
  | .help => some (.finished .help)
  | .version => some (.finished .version)

def readLong? (o : Options) (body : Text) : Option Reading :=
  match Text.cut? '=' body with
  | some (name, value) =>
    ((Choice.ofName? name).filter Choice.takesValue).bind fun choice => o.give? choice value
  | none =>
    (Choice.ofName? body).bind fun choice =>
      if choice.takesValue then some (.further o (some choice)) else o.give? choice []

/-- Short options joined in one word. What is behind one that takes a value is the value. -/
def readShort? (o : Options) : Text → Option Reading
  | [] => some (.further o none)
  | letter :: rest =>
    (Choice.ofLetter? letter).bind fun choice =>
      if choice.takesValue then
        if rest.isEmpty then some (.further o (some choice))
        else o.give? choice ((Text.dropStart? ['='] rest).getD rest)
      else
        (o.give? choice []).bind fun
          | .further o _ => readShort? o rest
          | finished => some finished

/-- Whether a word is no value: it begins with a dash, and is more than that. -/
def isOption (word : Text) : Bool := ['-'].isPrefixOf word && word ≠ "-"

def readWord? (o : Options) (word : Text) : Option Reading :=
  if !isOption word then none
  else match Text.dropStart? "--" word with
    | some body => readLong? o body
    | none => readShort? o (word.drop 1)

def readFrom? (o : Options) : Option Choice → List Text → Option Request
  | none, [] => some (.start o)
  | some _, [] => none
  | some choice, word :: rest =>
    if isOption word then none
    else match o.give? choice word with
      | some (.further o _) => readFrom? o none rest
      | some (.finished request) => some request
      | none => none
  | none, word :: rest =>
    if word == "--" && rest.isEmpty then some (.start o)
    else match readWord? o word with
      | some (.further o pending) => readFrom? o pending rest
      | some (.finished request) => some request
      | none => none

def read? (words : List Text) : Option Request := readFrom? {} none words

def version : Text := "consh 0.2.0\n"

def help : Text :=
  Text.unlines [
    "A cooperative command interpreter runtime for embedded text consoles.",
    "",
    "Usage: consh [OPTIONS]",
    "",
    "Options:",
    "      --config <PATH>   Path to a config file to use instead of ~/.config/consh/config.toml",
    "      --no-color        Disable colored output",
    "  -v, --verbose         Log runtime diagnostics (same as RUST_LOG=debug)",
    "  -c, --command <LINE>  Run a single command line and exit",
    "  -h, --help            Print help",
    "  -V, --version         Print version",
    ""]

end ConsoleShell.CommandLine
