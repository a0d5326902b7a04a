import ConsoleShell.Text.Blank
/-! Splitting a line into words. Blanks outside quotes separate words, a backslash stands for the
character after it everywhere, and a quote is closed by its own kind only. A quoted span is a
word even when it is empty. -/
namespace ConsoleShell

inductive TokenError where
  | unterminatedQuote
  | strayBackslash
  deriving DecidableEq, Repr

def TokenError.message : TokenError → Text
  | .unterminatedQuote => "ParseError: unterminated quote"
  | .strayBackslash => "ParseError: stray backslash"

namespace Token

def isQuote (c : Char) : Bool := c = '"' || c = '\''

def extend (word : Option Text) (c : Char) : Option Text := some (word.getD [] ++ [c])

def scan (word : Option Text) (quote : Option Char) : Text → Except TokenError (List Text)
  | [] => if quote.isSome then .error .unterminatedQuote else .ok word.toList
  | ['\\'] => .error .strayBackslash
  | '\\' :: c :: rest => scan (extend word c) quote rest
  | c :: rest =>
    if quote = some c then scan word none rest
    else if quote.isNone && isQuote c then scan (some (word.getD [])) (some c) rest
    else if quote.isNone && isBlank c then (scan none none rest).map (word.toList ++ ·)
    else scan (extend word c) quote rest

end Token

def tokenize (line : Text) : Except TokenError (List Text) := Token.scan none none line

namespace Background

/-- Whether a quoted span is open at the end of a text. A backslash hides the next character. -/
def leavesOpen (quote : Option Char) : Text → Bool
  | [] => quote.isSome
  | ['\\'] => quote.isSome
  | '\\' :: _ :: rest => leavesOpen quote rest
  | c :: rest =>
    if quote = some c then leavesOpen none rest
    else if quote.isNone && Token.isQuote c then leavesOpen (some c) rest
    else leavesOpen quote rest

def finalBackslashes (text : Text) : Nat := (text.reverse.takeWhile (· = '\\')).length

/-- What is to run in the background: the line before a last ampersand that is neither doubled,
nor escaped, nor inside quotes, unless nothing is left. -/
def command? (line : Text) : Option Text := do
  let body ← Text.dropEnd? ['&'] (Text.trimEnd line)
  if ['&'].isSuffixOf body || finalBackslashes body % 2 = 1 || leavesOpen none body then none
  else
    let command := Text.trimEnd body
    if command.isEmpty then none else some command

end Background

end ConsoleShell
