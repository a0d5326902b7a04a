import ConsoleShell.Text.Basic
/-! The numbers by which sessions, output groups, jobs and foreground scopes are known. Session
numbers have 128 bits; the others are handed out from 1 upwards and never again. -/
namespace ConsoleShell

structure SessionId where
  number : Nat
  deriving DecidableEq, Repr

structure GroupId where
  number : Nat
  deriving DecidableEq, Repr

structure JobId where
  number : Nat
  deriving DecidableEq, Repr

structure ScopeId where
  number : Nat
  deriving DecidableEq, Repr

instance : LT SessionId := ⟨fun a b => a.number < b.number⟩

instance : DecidableLT SessionId := fun a b => inferInstanceAs (Decidable (a.number < b.number))

instance : LT JobId := ⟨fun a b => a.number < b.number⟩

instance : DecidableLT JobId := fun a b => inferInstanceAs (Decidable (a.number < b.number))

def SessionId.display (s : SessionId) : Text :=
  let digits := Nat.toDigits 16 s.number
  (List.replicate (32 - digits.length) '0' ++ digits).take 8

def GroupId.display (g : GroupId) : Text := '#' :: Text.ofNat g.number

def JobId.display (j : JobId) : Text := Text.ofNat j.number

end ConsoleShell
