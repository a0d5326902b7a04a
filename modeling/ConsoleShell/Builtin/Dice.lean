import ConsoleShell.Program
/-! The command `roll` throws dice. -/
namespace ConsoleShell.Builtin

def readDice (typed : Text) : Except Failure (Nat × Nat) := do
  let invalid := Failure.invalidDice (Markup.unescape typed)
  let some (before, after) := Text.cut? 'd' (Text.lower typed) | throw invalid
  let some count := if before.isEmpty then some 1 else Whole.read? (twoTo 32) before | throw invalid
  let some sides := Whole.read? (twoTo 32) after | throw invalid
  if count < 1 || 100 < count then throw .diceCountOutOfRange
  if sides < 2 || 1000 < sides then throw .diceSidesOutOfRange
  return (count, sides)

def throwDice (sides : Nat) : Nat → List Nat → Program
  | 0, rolls =>
    .say ("Rolls: " ++ Text.join ", " (rolls.map Text.ofNat) ++ "\nTotal: " ++
      Text.ofNat rolls.sum) .finish
  | count + 1, rolls => .roll sides fun n => throwDice sides count (rolls ++ [n])

def runRoll (arguments : Arguments) (_ : Caller) : Program :=
  .orFail (readDice (arguments.positionals.headD "1d6")) fun (count, sides) =>
    throwDice sides count []

def roll : Declaration where
  name := "roll"
  description := "Roll dice in NdM notation (default 1d6)."
  positionals := [{ name := "dice", description := some "e.g. 3d6 or d20" }]
  handler := runRoll

end ConsoleShell.Builtin
