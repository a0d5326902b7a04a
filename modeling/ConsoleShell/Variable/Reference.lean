import ConsoleShell.Variable.Name
/-! References to variables inside a text. There are four spellings; two of them read the
environment alone. A backslash right before a reference keeps both as they are. -/
namespace ConsoleShell.Variable

inductive Spelling where
  | environmentPrefixed
  | environmentBraced
  | braced
  | bare
  deriving DecidableEq, Repr

structure Reference where
  spelling : Spelling
  name : Text
  deriving DecidableEq, Repr

namespace Reference

def text (r : Reference) : Text :=
  match r.spelling with
  | .environmentPrefixed => "$\x7bENV:" ++ r.name ++ "\x7d"
  | .environmentBraced => "$ENV\x7b" ++ r.name ++ "\x7d"
  | .braced => "$\x7b" ++ r.name ++ "\x7d"
  | .bare => '$' :: r.name

/-- Whether session variables are passed over. -/
def readsEnvironmentOnly (r : Reference) : Bool :=
  r.spelling = .environmentPrefixed || r.spelling = .environmentBraced

def enclosed? (opening : Text) (spelling : Spelling) (text : Text) : Option Reference := do
  let (name, rest) ← takeName? (← Text.dropStart? opening text)
  if ['}'].isPrefixOf rest then some ⟨spelling, name⟩ else none

/-- The reference that a text begins with. Where several spellings fit, the first one counts. -/
def read? (text : Text) : Option Reference :=
  (enclosed? "$\x7bENV:" .environmentPrefixed text).or <|
  (enclosed? "$ENV\x7b" .environmentBraced text).or <|
  (enclosed? "$\x7b" .braced text).or <| do
    let (name, _) ← takeName? (← Text.dropStart? ['$'] text)
    some ⟨.bare, name⟩

end Reference

inductive Piece where
  | literal (c : Char)
  /-- A reference behind a backslash, which stays with it. -/
  | kept (reference : Reference)
  | reference (reference : Reference)
  deriving DecidableEq, Repr

/-- The pieces of a text, found from the left; `skip` characters belong to the last piece. -/
def piecesFrom : Nat → Text → List Piece
  | _, [] => []
  | skip + 1, _ :: rest => piecesFrom skip rest
  | 0, c :: rest =>
    if c = '\\' then
      match Reference.read? rest with
      | some r => .kept r :: piecesFrom r.text.length rest
      | none => .literal c :: piecesFrom 0 rest
    else
      match Reference.read? (c :: rest) with
      | some r => .reference r :: piecesFrom (r.text.length - 1) rest
      | none => .literal c :: piecesFrom 0 rest

def pieces (text : Text) : List Piece := piecesFrom 0 text

def Piece.text : Piece → Text
  | .literal c => [c]
  | .kept r => '\\' :: r.text
  | .reference r => r.text

end ConsoleShell.Variable
