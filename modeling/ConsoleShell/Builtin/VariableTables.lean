import ConsoleShell.Builtin.Format
import ConsoleShell.Program
/-! The commands that list, export and remove variables. Assignments are lines of their own and
never come here. -/
namespace ConsoleShell.Builtin

def listing (table : Dict Text Text) : Program :=
  if table.entries.isEmpty then .finish else .say (assignments table.entries) .finish

def env : Declaration where
  name := "env"
  description := "List environment variables."
  handler := fun _ _ => .inspect fun view => listing view.store.environment

def set : Declaration where
  name := "set"
  description := "List session variables."
  handler := fun _ _ => .inspect fun view => listing view.store.session

def exportArgument (name : Text) (next : Program) : Program :=
  .orFail (requireName name) fun _ =>
    .inspect fun view =>
      match view.store.session.get? name with
      | some value => .change (.setEnvironment name value) next
      | none => .fail (.noSuchVariable name)

def runExport (arguments : Arguments) (_ : Caller) : Program :=
  if arguments.positionals.isEmpty then .inspect fun view => listing view.store.environment
  else .forEach arguments.positionals exportArgument .finish

def «export» : Declaration where
  name := "export"
  description := "List environment variables, or export session variables."
  positionals := [{ name := "name", variadic := true }]
  handler := runExport

def unsetArgument (fromEnvironment : Bool) (name : Text) (next : Program) : Program :=
  .orFail (requireName name) fun _ =>
    .change (if fromEnvironment then .unsetEnvironment name else .unsetVariable name) next

def runUnset (arguments : Arguments) (_ : Caller) : Program :=
  .forEach arguments.positionals (unsetArgument (arguments.isOn "env")) .finish

def unset : Declaration where
  name := "unset"
  description := "Remove session variables (or environment variables with -e)."
  flags := some [
    (Flag.boolean "env").withAlias "e" |>.describedAs "Remove from the environment instead."]
  positionals := [{ name := "name", required := true, variadic := true }]
  handler := runUnset

end ConsoleShell.Builtin
