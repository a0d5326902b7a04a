/-! Signals that fire once. What waits on a signal is kept with it in the order in which it came and
handed out when the signal fires; a signal that has fired keeps nothing. -/
namespace ConsoleShell

structure SignalId where
  index : Nat
  deriving DecidableEq, Repr

structure Signal (κ : Type) where
  fired : Bool := false
  waiting : List κ := []
  deriving DecidableEq, Repr

/-- All signals that were made, each at the place that its number says. -/
structure Signals (κ : Type) where
  all : List (Signal κ) := []
  deriving DecidableEq, Repr

namespace Signals

variable {κ : Type}

def empty : Signals κ := {}

def get? (s : Signals κ) (id : SignalId) : Option (Signal κ) := s.all[id.index]?

def create (s : Signals κ) : SignalId × Signals κ :=
  (⟨s.all.length⟩, ⟨s.all ++ [⟨false, []⟩]⟩)

def isFired (s : Signals κ) (id : SignalId) : Bool :=
  ((s.get? id).map Signal.fired).getD false

def queue (s : Signals κ) (id : SignalId) (item : κ) : Signals κ :=
  ⟨s.all.modify id.index fun signal =>
    if signal.fired then signal else { signal with waiting := signal.waiting ++ [item] }⟩

def fire (s : Signals κ) (id : SignalId) : Option (List κ) × Signals κ :=
  match s.get? id with
  | none => (none, s)
  | some signal =>
    if signal.fired then (none, s)
    else (some signal.waiting, ⟨s.all.set id.index { fired := true }⟩)

end Signals

end ConsoleShell
