import ConsoleShell.Text.Basic
/-! The prompt. A template names the user and the working directory, which is shown relative to
the home directory when it lies there. -/
namespace ConsoleShell.Prompt

def displayDirectory (cwd home : Text) : Text :=
  match Text.dropStart? home cwd with
  | some rest =>
    if !home.isEmpty && (rest.isEmpty || ['/'].isPrefixOf rest) then '~' :: rest else cwd
  | none => cwd

/-- The user's place is filled first and the directory's place second, in the text that results. -/
def render (template user cwd home : Text) : Text :=
  Text.replaceAll "\x7bcwd\x7d" (displayDirectory cwd home)
    (Text.replaceAll "\x7buser\x7d" user template)

end ConsoleShell.Prompt
