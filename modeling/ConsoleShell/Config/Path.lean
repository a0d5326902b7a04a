import ConsoleShell.Text.Alphanumeric
import ConsoleShell.Text.Basic
/-! Paths as a user writes them. Names behind a dollar sign stand for variables of the process, and
a tilde at the start stands for the home directory. -/
namespace ConsoleShell

structure PathError where
  path : Text
  name : Text
  deriving DecidableEq, Repr

def PathError.message (e : PathError) : Text :=
  "Could not expand path '" ++ e.path ++ "': error looking key '" ++ e.name ++
    "' up: environment variable not found"

namespace Path

inductive Piece where
  | literal (c : Char)
  | variable (name : Text) (default : Option Text)
  deriving DecidableEq, Repr

def isNameCharacter (c : Char) : Bool := isAlphanumeric c || c = '_'

def cutDefault? : Text → Option (Text × Text)
  | ':' :: '-' :: rest => some ([], rest)
  | c :: rest => (cutDefault? rest).map fun (name, default) => (c :: name, default)
  | [] => none

def braced (body : Text) : Piece :=
  match cutDefault? body with
  | some (c :: name, default) => .variable (c :: name) (some default)
  | _ => .variable body none

/-- The pieces of a path, found from the left; `skip` characters belong to the last piece. Two
dollar signs are one, and a dollar sign before anything else stands for itself. -/
def piecesFrom : Nat → Text → List Piece
  | _, [] => []
  | skip + 1, _ :: rest => piecesFrom skip rest
  | 0, c :: rest =>
    if c ≠ '$' then .literal c :: piecesFrom 0 rest
    else match rest with
      | '{' :: inner =>
        if inner.contains '}' then
          let body := inner.takeWhile (· ≠ '}')
          braced body :: piecesFrom (body.length + 2) rest
        else .literal '$' :: .literal '{' :: piecesFrom 1 rest
      | '$' :: _ => .literal '$' :: piecesFrom 1 rest
      | _ =>
        let name := rest.takeWhile isNameCharacter
        if name.isEmpty then .literal '$' :: piecesFrom 0 rest
        else .variable name none :: piecesFrom name.length rest

def names (path : Text) : List Text :=
  "HOME" :: (piecesFrom 0 path).filterMap fun
    | .variable name _ => some name
    | .literal _ => none

def pieceText (env : Text → Option Text) (path : Text) : Piece → Except PathError Text
  | .literal c => .ok [c]
  | .variable name default =>
    match (env name).or default with
    | some value => .ok value
    | none => .error ⟨path, name⟩

def expandVariables (env : Text → Option Text) (path : Text) : Except PathError Text :=
  ((piecesFrom 0 path).mapM (pieceText env path)).map List.flatten

def expandTilde (home : Option Text) (path : Text) : Text :=
  match home, path with
  | some home, '~' :: rest =>
    if rest.isEmpty || ['/'].isPrefixOf rest then home ++ rest else path
  | _, _ => path

/-- Variables first; a tilde that only a value has brought to the start stays. -/
def expand (env : Text → Option Text) (path : Text) : Except PathError Text := do
  let expanded ← expandVariables env path
  return if ['~'].isPrefixOf path then expandTilde (env "HOME") expanded else expanded

end Path

end ConsoleShell
