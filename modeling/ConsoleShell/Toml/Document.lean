import ConsoleShell.Toml.Quoted
/-! Reading a TOML document: lines that give keys values or name tables. Every reader hands back
what it has not used, and nothing if the text is not well formed. -/
namespace ConsoleShell.Toml

def skipSpaces (text : Text) : Text := text.dropWhile isSpace

def skipComment (text : Text) : Text :=
  match text with
  | '#' :: rest => rest.dropWhile isTextCharacter
  | _ => text

def endLine? (text : Text) : Option Text :=
  let rest := skipComment (skipSpaces text)
  if rest.isEmpty then some []
  else if newlineLength rest = 0 then none
  else some (rest.drop (newlineLength rest))

def skipLines : Nat → Text → Text
  | 0, text => text
  | fuel + 1, text =>
    let rest := skipComment (skipSpaces text)
    if newlineLength rest = 0 then rest else skipLines fuel (rest.drop (newlineLength rest))

def isBareKeyCharacter (c : Char) : Bool := c.isAlphanum || c = '_' || c = '-'

def keyPart? (text : Text) : Option (Text × Text) :=
  match text with
  | '"' :: rest => basicFrom 0 rest
  | '\'' :: rest => literal? rest
  | _ =>
    let bare := text.takeWhile isBareKeyCharacter
    if bare.isEmpty then none else some (bare, text.dropWhile isBareKeyCharacter)

def key? : Nat → Text → Option (List Text × Text)
  | 0, _ => none
  | fuel + 1, text => do
    let (part, rest) ← keyPart? (skipSpaces text)
    match skipSpaces rest with
    | '.' :: after =>
      let (parts, rest) ← key? fuel after
      some (part :: parts, rest)
    | rest => some ([part], rest)

def maxDepth : Nat := 80

def maxParts : Nat := 80

mutual

def value? : Nat → Nat → Text → Option (Value × Text)
  | 0, _, _ => none
  | fuel + 1, depth, text =>
    match text with
    | '[' :: rest =>
      if depth = 0 then none
      else do
        let (items, rest) ← items? fuel (depth - 1) (skipLines fuel rest)
        some (.array items, rest)
    | '{' :: rest =>
      if depth = 0 then none
      else do
        let (entries, rest) ← bindings? fuel (depth - 1) [] (skipLines fuel rest)
        some (.table .inline entries, rest)
    | '"' :: _ | '\'' :: _ => (quoted? text).map fun (content, rest) => (.string content, rest)
    | _ => do
      let (typed, rest) := takeScalar text
      some (← scalar? typed, rest)

def items? : Nat → Nat → Text → Option (List Value × Text)
  | 0, _, _ => none
  | fuel + 1, depth, text =>
    match text with
    | ']' :: rest => some ([], rest)
    | _ => do
      let (item, rest) ← value? fuel depth text
      match skipLines fuel rest with
      | ']' :: rest => some ([item], rest)
      | ',' :: rest =>
        let (items, rest) ← items? fuel depth (skipLines fuel rest)
        some (item :: items, rest)
      | _ => none

def bindings? : Nat → Nat → Entries → Text → Option (Entries × Text)
  | 0, _, _, _ => none
  | fuel + 1, depth, entries, text =>
    match text with
    | '}' :: rest => some (entries, rest)
    | _ => do
      let (path, rest) ← key? maxParts text
      let rest ← Text.dropStart? ['='] (skipLines fuel rest)
      let (value, rest) ← value? fuel depth (skipLines fuel rest)
      let entries ← entries.assign? value path
      match skipLines fuel rest with
      | '}' :: rest => some (entries, rest)
      | ',' :: rest => bindings? fuel depth entries (skipLines fuel rest)
      | _ => none

end

def statement? (fuel : Nat) (text : Text) : Option (Option Statement × Text) :=
  match skipSpaces text with
  | '[' :: '[' :: rest => do
    let (path, rest) ← key? maxParts rest
    some (some (.arrayTable path), ← endLine? (← Text.dropStart? [']', ']'] rest))
  | '[' :: rest => do
    let (path, rest) ← key? maxParts rest
    some (some (.table path), ← endLine? (← Text.dropStart? [']'] rest))
  | text =>
    match endLine? text with
    | some rest => some (none, rest)
    | none => do
      let (path, rest) ← key? maxParts text
      let rest ← Text.dropStart? ['='] rest
      let (value, rest) ← value? fuel maxDepth (skipSpaces rest)
      some (some (.assign path value), ← endLine? rest)

/-- Reads line after line into the section under way. Every line uses up a character. -/
def readLines? (fuel : Nat) : Nat → Section → Text → Option Section
  | 0, _, _ => none
  | lines + 1, s, text =>
    if text.isEmpty then some s
    else do
      let (statement, rest) ← statement? fuel text
      let s ← match statement with
        | none => some s
        | some statement => s.admit? statement
      readLines? fuel lines s rest

def read? (text : Text) : Option Entries :=
  let text := (Text.dropStart? ['\ufeff'] text).getD text
  let bound := 2 * text.length + 2
  (readLines? bound bound {} text).map Section.root

end ConsoleShell.Toml
