import ConsoleShell.Toml.Moment
/-! Values of a TOML document and the tables that its lines build up. A table remembers how it came
to be, since that decides who may still add to it. -/
namespace ConsoleShell.Toml

inductive TableOrigin where
  | inline
  | implied
  | header
  | dotted
  deriving DecidableEq, Repr

inductive Value where
  | string (text : Text)
  | integer (n : Int)
  | float
  | boolean (b : Bool)
  | moment (moment : Moment)
  | array (items : List Value)
  | table (origin : TableOrigin) (entries : List (Text × Value))
  /-- An array of tables, the last one first. -/
  | tables (newestFirst : List (List (Text × Value)))

abbrev Entries := List (Text × Value)

namespace Entries

def put (key : Text) (value : Value) : Entries → Entries
  | [] => [(key, value)]
  | (k, v) :: rest => if k = key then (key, value) :: rest else (k, v) :: put key value rest

def add? (entries : Entries) (key : Text) (value : Value) : Option Entries :=
  if (entries.lookup key).isSome then none else some (entries ++ [(key, value)])

/-- The entries after a dotted key was given a value. The tables on the way have to be open to
dotted keys, and the last of them has to have come from one. -/
def assign? (value : Value) : List Text → Entries → Option Entries
  | [], _ => none
  | [key], entries => entries.add? key value
  | [first, key], entries =>
    match entries.lookup first with
    | none => some (entries ++ [(first, .table .dotted [(key, value)])])
    | some (.table .dotted inner) => do
      some (entries.put first (.table .dotted (← Entries.add? inner key value)))
    | some _ => none
  | first :: path, entries =>
    match entries.lookup first with
    | none => do some (entries ++ [(first, .table .dotted (← assign? value path []))])
    | some (.table .dotted inner) => do
      some (entries.put first (.table .dotted (← assign? value path inner)))
    | some (.table .implied inner) => do
      some (entries.put first (.table .implied (← assign? value path inner)))
    | some (.tables (newest :: older)) => do
      some (entries.put first (.tables ((← assign? value path newest) :: older)))
    | some _ => none

/-- A change to the table that a header's path leads to. Tables on the way are made where they
are missing; of an array of tables the last one is meant. -/
def within? (change : Entries → Option Entries) : List Text → Entries → Option Entries
  | [], entries => change entries
  | first :: path, entries =>
    match entries.lookup first with
    | none => do some (entries ++ [(first, .table .implied (← within? change path []))])
    | some (.table origin inner) =>
      if origin = .inline then none
      else do some (entries.put first (.table origin (← within? change path inner)))
    | some (.tables (newest :: older)) => do
      some (entries.put first (.tables ((← within? change path newest) :: older)))
    | some _ => none

def openTable? (key : Text) (entries : Entries) : Option Entries :=
  match entries.lookup key with
  | none => some (entries ++ [(key, .table .header [])])
  | some (.table .implied inner) => some (entries.put key (.table .header inner))
  | some _ => none

def addTable? (key : Text) (entries : Entries) : Option Entries :=
  match entries.lookup key with
  | none => some (entries ++ [(key, .tables [[]])])
  | some (.tables older) => some (entries.put key (.tables ([] :: older)))
  | some _ => none

end Entries

inductive Statement where
  | assign (path : List Text) (value : Value)
  | table (path : List Text)
  | arrayTable (path : List Text)

structure Section where
  path : List Text := []
  root : Entries := []

namespace Section

def admit? (s : Section) : Statement → Option Section
  | .assign path value => do
    some { s with root := ← Entries.within? (Entries.assign? value path) s.path s.root }
  | .table path => do
    let key ← path.getLast?
    some ⟨path, ← Entries.within? (Entries.openTable? key) path.dropLast s.root⟩
  | .arrayTable path => do
    let key ← path.getLast?
    some ⟨path, ← Entries.within? (Entries.addTable? key) path.dropLast s.root⟩

end Section

end ConsoleShell.Toml
