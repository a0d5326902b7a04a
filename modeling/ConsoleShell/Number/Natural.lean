/-! Powers and sums of natural numbers. -/
namespace ConsoleShell

def twoTo (n : Nat) : Nat := Nat.pow 2 n

def tenTo (n : Nat) : Nat := Nat.pow 10 n

def total : List Nat → Nat
  | [] => 0
  | n :: ns => n + total ns

theorem totalAppend (ns ms : List Nat) : total (ns ++ ms) = total ns + total ms := by
  induction ns with
  | nil => simp [total]
  | cons n ns ih => simp only [List.cons_append, total, ih, Nat.add_assoc]

end ConsoleShell
