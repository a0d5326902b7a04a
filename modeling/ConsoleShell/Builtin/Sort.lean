import ConsoleShell.Program
/-! The command `sort` orders piped lines, or its arguments. -/
namespace ConsoleShell.Builtin

namespace LineOrder

def byText (a b : Text) : Ordering := if a < b then .lt else if a = b then .eq else .gt

def leadingNumeral (line : Text) : Text :=
  let text := Text.trimStart line
  let isPart (c : Char) : Bool := c.isDigit || c = '.'
  match text with
  | c :: rest => if c = '-' || c = '+' || isPart c then c :: rest.takeWhile isPart else []
  | [] => []

def leadingNumber? (line : Text) : Option Double := Double.read? (leadingNumeral line)

/-- Lines without a number come first; equal numbers are ordered by the text of their lines. -/
def byNumber (a b : Text) : Ordering :=
  match leadingNumber? a, leadingNumber? b with
  | some x, some y => ((x.compare y).getD .eq).then (byText a b)
  | none, some _ => .lt
  | some _, none => .gt
  | none, none => byText a b

end LineOrder

def sortLines (numeric reverse unique : Bool) (lines : List Text) : List Text :=
  let order := if numeric then LineOrder.byNumber else LineOrder.byText
  let sorted := lines.mergeSort fun a b => order a b != .gt
  let single := if unique then sorted.eraseReps else sorted
  if reverse then single.reverse else single

def runSort (arguments : Arguments) (caller : Caller) : Program :=
  let given := match caller.piped with
    | some lines => lines.map Markup.escape
    | none => arguments.positionals
  let lines :=
    sortLines (arguments.isOn "numeric") (arguments.isOn "reverse") (arguments.isOn "unique") given
  if lines.isEmpty then .finish else .say (Text.unlines lines) .finish

def sort : Declaration where
  name := "sort"
  description := "Sort piped input lines, or the given arguments."
  flags := some [
    (Flag.boolean "reverse").withAlias "r" |>.describedAs "Sort in descending order.",
    (Flag.boolean "unique").withAlias "u" |>.describedAs "Drop duplicate lines.",
    (Flag.boolean "numeric").withAlias "n" |>.describedAs "Compare lines by their leading number."]
  positionals := [{ name := "line", variadic := true }]
  handler := runSort

end ConsoleShell.Builtin
