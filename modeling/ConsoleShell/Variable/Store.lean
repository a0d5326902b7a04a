import ConsoleShell.Dict
import ConsoleShell.Variable.Reference
import ConsoleShell.Text.Blank
/-! The variables of a session and its environment, the expansion of references, and the
assignment lines that set them. -/
namespace ConsoleShell

structure Variables where
  session : Dict Text Text := .empty
  environment : Dict Text Text := .empty
  deriving DecidableEq, Repr

namespace Variables

def setSession (v : Variables) (name value : Text) : Variables :=
  { v with session := v.session.insert name value }

def setEnvironment (v : Variables) (name value : Text) : Variables :=
  { v with environment := v.environment.insert name value }

def unsetSession (v : Variables) (name : Text) : Variables :=
  { v with session := v.session.erase name }

def unsetEnvironment (v : Variables) (name : Text) : Variables :=
  { v with environment := v.environment.erase name }

/-- A session variable hides an environment variable of its name. -/
def lookup (v : Variables) (name : Text) : Option Text :=
  (v.session.get? name).or (v.environment.get? name)

def value (v : Variables) (r : Variable.Reference) : Text :=
  ((if r.readsEnvironmentOnly then v.environment.get? r.name else v.lookup r.name)).getD []

/-- Every reference is replaced by its value, written by `write`. Values are not looked at again. -/
def expandWith (write : Text → Text) (v : Variables) (text : Text) : Text :=
  (Variable.pieces text).flatMap fun
    | .reference r => write (v.value r)
    | other => other.text

def expand (v : Variables) (text : Text) : Text := v.expandWith id text

/-- Backslashes and quotes behind a backslash, so that splitting into words takes them as they are. -/
def shield (value : Text) : Text :=
  value.flatMap fun c => if c = '\\' ∨ c = '\'' ∨ c = '"' then ['\\', c] else [c]

def expandLine (v : Variables) (line : Text) : Text := v.expandWith shield line

end Variables

inductive AssignmentTarget where
  | session
  | environment
  deriving DecidableEq, Repr

structure Assignment where
  target : AssignmentTarget
  name : Text
  value : Text
  deriving DecidableEq, Repr

namespace Assignment

def readBinding? (text : Text) : Option (Text × Text) := do
  let (name, rest) ← Variable.takeName? text
  let value ← Text.dropStart? ['='] rest
  if value.contains '\n' then none else some (name, Text.trim value)

def readExport? (text : Text) : Option (Text × Text) := do
  let rest ← Text.dropStart? "export" text
  if (rest.head?.map isBlank).getD false then readBinding? (Text.trimStart rest) else none

def read? (line : Text) : Option Assignment :=
  let text := Text.trimStart line
  match readExport? text with
  | some (name, value) => some ⟨.environment, name, value⟩
  | none => (readBinding? text).map fun (name, value) => ⟨.session, name, value⟩

def between? (quote : Char) (text : Text) : Option Text := do
  Text.dropEnd? [quote] (← Text.dropStart? [quote] text)

/-- The value that is stored: literal in single quotes, otherwise expanded. -/
def resolve (v : Variables) (typed : Text) : Text :=
  match between? '"' typed with
  | some inner => v.expand inner
  | none =>
    match between? '\'' typed with
    | some inner => inner
    | none => v.expand typed

def report (a : Assignment) : Text :=
  match a.target with
  | .session => a.name ++ "=" ++ a.value
  | .environment => "export " ++ a.name ++ "=" ++ a.value

end Assignment

def Variables.assign? (v : Variables) (line : Text) : Option (Assignment × Variables) := do
  let typed ← Assignment.read? line
  let assignment := { typed with value := Assignment.resolve v typed.value }
  match assignment.target with
  | .session => some (assignment, v.setSession assignment.name assignment.value)
  | .environment => some (assignment, v.setEnvironment assignment.name assignment.value)

end ConsoleShell
