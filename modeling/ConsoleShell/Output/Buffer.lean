import ConsoleShell.Id
import ConsoleShell.Output.Line
/-! Output groups. Every print makes a group with a number of its own, under which it can be
replaced or removed later; numbers count on even when groups go. -/
namespace ConsoleShell

structure Group where
  id : GroupId
  kind : OutputKind
  lines : List Line
  deriving DecidableEq, Repr

structure Buffer where
  groups : List Group := []
  lastId : Nat := 0
  deriving DecidableEq, Repr

inductive UpdateOutcome where
  | changed
  | unchanged
  | missing
  deriving DecidableEq, Repr

namespace Buffer

def empty : Buffer := {}

def pushLines (b : Buffer) (kind : OutputKind) (lines : List Line) : GroupId × Buffer :=
  let id : GroupId := ⟨b.lastId + 1⟩
  (id, { groups := b.groups ++ [⟨id, kind, lines⟩], lastId := b.lastId + 1 })

def print (b : Buffer) (kind : OutputKind) (text : Text) : GroupId × Buffer :=
  b.pushLines kind (Render.text kind text)

def group? (b : Buffer) (id : GroupId) : Option Group := b.groups.find? fun g => g.id = id

def update (b : Buffer) (id : GroupId) (text : Text) : UpdateOutcome × Buffer :=
  match b.group? id with
  | none => (.missing, b)
  | some group =>
    let lines := Render.text group.kind text
    if group.lines = lines then (.unchanged, b)
    else
      let replace (g : Group) : Group := if g.id = id then { g with lines } else g
      (.changed, { b with groups := b.groups.map replace })

def delete (b : Buffer) (id : GroupId) : Bool × Buffer :=
  ((b.group? id).isSome, { b with groups := b.groups.filter fun g => !decide (g.id = id) })

def clear (b : Buffer) : Buffer := { b with groups := [] }

def lines (b : Buffer) : List Line := b.groups.flatMap Group.lines

def markupLines (b : Buffer) : List Text := b.lines.map Line.markup

def plainLines (b : Buffer) : List Text := b.lines.map Line.plain

end Buffer

end ConsoleShell
