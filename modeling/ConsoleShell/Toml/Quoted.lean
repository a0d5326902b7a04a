import ConsoleShell.Toml.Scalar
/-! Quoted text in TOML: basic and literal strings, on one line or on several. -/
namespace ConsoleShell.Toml

def isTextCharacter (c : Char) : Bool := c = '\t' || (' ' ≤ c && c ≠ '\x7f')

def isSpace (c : Char) : Bool := c = ' ' || c = '\t'

def codePoint? (count : Nat) (text : Text) : Option Char :=
  let digits := text.take count
  let n := valueInBase 16 digits
  if digits.length = count && digits.all isHexDigit && (n < 0xD800 || 0xDFFF < n && n < 0x110000)
  then some (Char.ofNat n)
  else none

def escape? : Text → Option (Char × Nat)
  | 'b' :: _ => some ('\x08', 1)
  | 't' :: _ => some ('\t', 1)
  | 'n' :: _ => some ('\n', 1)
  | 'f' :: _ => some ('\x0c', 1)
  | 'r' :: _ => some ('\r', 1)
  | 'e' :: _ => some ('\x1b', 1)
  | '"' :: _ => some ('"', 1)
  | '\\' :: _ => some ('\\', 1)
  | 'x' :: rest => (codePoint? 2 rest).map (·, 3)
  | 'u' :: rest => (codePoint? 4 rest).map (·, 5)
  | 'U' :: rest => (codePoint? 8 rest).map (·, 9)
  | _ => none

/-- Content and rest of a basic string; `skip` characters belong to the last escape. -/
def basicFrom : Nat → Text → Option (Text × Text)
  | _, [] => none
  | skip + 1, _ :: rest => basicFrom skip rest
  | 0, c :: rest =>
    if c = '"' then some ([], rest)
    else if c = '\\' then do
      let (character, used) ← escape? rest
      (basicFrom used rest).map fun (content, after) => (character :: content, after)
    else if isTextCharacter c then
      (basicFrom 0 rest).map fun (content, after) => (c :: content, after)
    else none

def literal? (text : Text) : Option (Text × Text) := do
  let content := text.takeWhile (· ≠ '\'')
  if !content.all isTextCharacter then none
  match text.dropWhile (· ≠ '\'') with
  | '\'' :: rest => some (content, rest)
  | _ => none

def newlineLength : Text → Nat
  | '\n' :: _ => 1
  | '\r' :: '\n' :: _ => 2
  | _ => 0

def gapLength : Nat → Text → Nat
  | _, [] => 0
  | skip + 1, _ :: rest => gapLength skip rest + 1
  | 0, c :: rest =>
    if isSpace c then gapLength 0 rest + 1
    else match newlineLength (c :: rest) with
      | 0 => 0
      | length + 1 => gapLength length rest + 1

def continuationLength (text : Text) : Nat :=
  if newlineLength (text.dropWhile isSpace) = 0 then 0 else gapLength 0 text

/-- How many of the quotes at the start are content, if they end a string of several lines. -/
def closing? (quote : Char) (text : Text) : Option (Nat × Text) :=
  let run := min 5 (text.takeWhile (· = quote)).length
  if run < 3 then none else some (run - 3, text.drop run)

def multilineFrom (quote : Char) (escapes : Bool) : Nat → Text → Option (Text × Text)
  | _, [] => none
  | skip + 1, _ :: rest => multilineFrom quote escapes skip rest
  | 0, c :: rest =>
    let push (character : Char) (skip : Nat) : Option (Text × Text) :=
      (multilineFrom quote escapes skip rest).map fun (content, after) =>
        (character :: content, after)
    match closing? quote (c :: rest) with
    | some (content, after) => some (List.replicate content quote, after)
    | none =>
      if escapes && c = '\\' then
        let continuation := continuationLength rest
        if 0 < continuation then multilineFrom quote escapes continuation rest
        else do
          let (character, used) ← escape? rest
          push character used
      else if isTextCharacter c || 0 < newlineLength (c :: rest) || c = '\n' then push c 0
      else none

def multiline? (quote : Char) (escapes : Bool) (text : Text) : Option (Text × Text) :=
  multilineFrom quote escapes 0 (text.drop (newlineLength text))

def quoted? : Text → Option (Text × Text)
  | '"' :: '"' :: '"' :: rest => multiline? '"' true rest
  | '\'' :: '\'' :: '\'' :: rest => multiline? '\'' false rest
  | '"' :: rest => basicFrom 0 rest
  | '\'' :: rest => literal? rest
  | _ => none

end ConsoleShell.Toml
