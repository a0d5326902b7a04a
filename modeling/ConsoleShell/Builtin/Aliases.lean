import ConsoleShell.Program
import ConsoleShell.Quoting
/-! The commands `alias` and `unalias`. Their words come as they are, so that a target keeps its
quotes; targets are held unescaped, since they are split into words again when they are used. -/
namespace ConsoleShell.Builtin

def aliasLine (name target : Text) : Text :=
  Markup.escape ("alias " ++ name ++ "=" ++ Quoting.quote target)

def isAliasName (name : Text) : Bool :=
  !name.isEmpty && name.all fun c => !isBlank c && c ≠ '=' && c ≠ '$'

def aliasArgument (argument : Text) (next : Program) : Program :=
  let typed := Markup.unescape argument
  match Text.cut? '=' typed with
  | some (name, target) =>
    if !isAliasName name then .fail (.invalidAliasName name)
    else if (Text.trim target).isEmpty then .fail (.aliasWithoutTarget name)
    else .change (.setAlias name target) next
  | none =>
    .inspect fun view =>
      match view.aliases.get? typed with
      | some target => .say (aliasLine typed target) next
      | none => .fail (.noSuchAlias typed)

def runAlias (arguments : Arguments) (_ : Caller) : Program :=
  if arguments.positionals.isEmpty then
    .inspect fun view =>
      let lines := view.aliases.entries.map fun (name, target) => aliasLine name target
      if lines.isEmpty then .finish else .say (Text.unlines lines) .finish
  else .forEach arguments.positionals aliasArgument .finish

def «alias» : Declaration where
  name := "alias"
  description := "List aliases, show one, or define NAME=TARGET."
  flags := none
  handler := runAlias

def unaliasArgument (argument : Text) (next : Program) : Program :=
  let name := Markup.unescape argument
  .inspect fun view =>
    if view.aliases.contains name then .change (.removeAlias name) next
    else .fail (.noSuchAlias name)

def runUnalias (arguments : Arguments) (_ : Caller) : Program :=
  if arguments.positionals.isEmpty then .fail .unaliasWithoutNames
  else .forEach arguments.positionals unaliasArgument .finish

def unalias : Declaration where
  name := "unalias"
  description := "Remove aliases."
  flags := none
  handler := runUnalias

end ConsoleShell.Builtin
