import ConsoleShell.Dict
import ConsoleShell.Id
import ConsoleShell.Number.Natural
import ConsoleShell.Signal
/-! Foreground scopes. A session has at most one live scope; a scope that is replaced, cancelled or
discarded has its signal fired, and what waited on the signal runs at once. What runs may itself
register, cancel and begin, so a run is a cascade: a machine that takes one small step at a time
and works off whatever its steps set free before it goes on. -/
namespace ConsoleShell

inductive Callback (ν : Type) where
  | done
  | note (label : ν) (next : Callback ν)
  | register (signal : SignalId) (inner next : Callback ν)
  | cancel (session : SessionId) (label : ν) (next : Callback ν)
  | begin (session : SessionId) (label : ν) (next : Callback ν)
  deriving DecidableEq, Repr

inductive CancelOutcome where
  | cancelled
  | alreadyCancelled
  | noActiveScope
  deriving DecidableEq, Repr

inductive Note (ν : Type) where
  | ran (label : ν)
  | cancelled (label : ν) (outcome : CancelOutcome)
  | began (label : ν) (scope : ScopeId)
  deriving DecidableEq, Repr

structure Scope where
  id : ScopeId
  signal : SignalId
  deriving DecidableEq, Repr

structure Scopes (ν : Type) where
  signals : Signals (Callback ν) := .empty
  live : Dict SessionId Scope := .empty
  lastId : Nat := 0
  deriving DecidableEq, Repr

inductive Duty (ν : Type) where
  | run (callback : Callback ν)
  | report (note : Note ν)
  deriving DecidableEq, Repr

structure Cascade (ν : Type) where
  scopes : Scopes ν
  duties : List (Duty ν) := []
  notes : List (Note ν) := []
  deriving DecidableEq, Repr

variable {ν : Type}

namespace Callback

/-- A bound on the steps that running the callback takes by itself. -/
def weight : Callback ν → Nat
  | done => 1
  | note _ next => 1 + next.weight
  | register _ inner next => 1 + inner.weight + next.weight
  | cancel _ _ next => 2 + next.weight
  | begin _ _ next => 2 + next.weight

end Callback

def Duty.weight : Duty ν → Nat
  | .run callback => callback.weight
  | .report _ => 1

namespace Scopes

def empty : Scopes ν := {}

def fire (s : Scopes ν) (signal : SignalId) : Bool × List (Duty ν) × Scopes ν :=
  match s.signals.fire signal with
  | (some callbacks, signals) => (true, callbacks.map .run, { s with signals })
  | (none, _) => (false, [], s)

/-- A new scope takes the place of the live one before that one's signal fires. -/
def replace (s : Scopes ν) (session : SessionId) : Scope × List (Duty ν) × Scopes ν :=
  let (signal, signals) := s.signals.create
  let scope : Scope := ⟨⟨s.lastId + 1⟩, signal⟩
  let after : Scopes ν :=
    { signals, live := s.live.insert session scope, lastId := s.lastId + 1 }
  match s.live.get? session with
  | none => (scope, [], after)
  | some previous => (scope, (after.fire previous.signal).2)

def interrupt (s : Scopes ν) (session : SessionId) : CancelOutcome × List (Duty ν) × Scopes ν :=
  match s.live.get? session with
  | none => (.noActiveScope, [], s)
  | some scope =>
    match s.fire scope.signal with
    | (true, duties, s) => (.cancelled, duties, s)
    | (false, duties, s) => (.alreadyCancelled, duties, s)

def enlist (s : Scopes ν) (signal : SignalId) (callback : Callback ν) :
    List (Duty ν) × Scopes ν :=
  if s.signals.isFired signal then ([.run callback], s)
  else ([], { s with signals := s.signals.queue signal callback })

def weight (s : Scopes ν) : Nat :=
  total (s.signals.all.map fun signal => total (signal.waiting.map Callback.weight))

end Scopes

namespace Cascade

/-- One small step: the first duty, or the first action of it. What a step sets free goes before
everything else. -/
def step (c : Cascade ν) : Cascade ν :=
  match c.duties with
  | [] => c
  | .report note :: rest => { c with duties := rest, notes := c.notes ++ [note] }
  | .run .done :: rest => { c with duties := rest }
  | .run (.note label next) :: rest =>
    { c with duties := .run next :: rest, notes := c.notes ++ [.ran label] }
  | .run (.register signal inner next) :: rest =>
    let (duties, scopes) := c.scopes.enlist signal inner
    { c with scopes, duties := duties ++ .run next :: rest }
  | .run (.cancel session label next) :: rest =>
    let (outcome, duties, scopes) := c.scopes.interrupt session
    { c with scopes, duties := duties ++ .report (.cancelled label outcome) :: .run next :: rest }
  | .run (.begin session label next) :: rest =>
    let (scope, duties, scopes) := c.scopes.replace session
    { c with scopes, duties := duties ++ .report (.began label scope.id) :: .run next :: rest }

/-- How many steps are left at most: every step uses up one. -/
def weight (c : Cascade ν) : Nat := total (c.duties.map Duty.weight) + c.scopes.weight

def steps : Nat → Cascade ν → Cascade ν
  | 0, c => c
  | n + 1, c => steps n c.step

def settle (c : Cascade ν) : Cascade ν := c.steps c.weight

def run (scopes : Scopes ν) (duties : List (Duty ν)) : List (Note ν) × Scopes ν :=
  let c := settle { scopes, duties }
  (c.notes, c.scopes)

end Cascade

namespace Scopes

def begin (s : Scopes ν) (session : SessionId) : Scope × List (Note ν) × Scopes ν :=
  let (scope, duties, s) := s.replace session
  (scope, Cascade.run s duties)

def cancel (s : Scopes ν) (session : SessionId) : CancelOutcome × List (Note ν) × Scopes ν :=
  let (outcome, duties, s) := s.interrupt session
  (outcome, Cascade.run s duties)

def finish (s : Scopes ν) (session : SessionId) (id : ScopeId) : Bool × Scopes ν :=
  if (s.live.get? session).any fun scope => scope.id = id then
    (true, { s with live := s.live.erase session })
  else (false, s)

def discard (s : Scopes ν) (session : SessionId) : List (Note ν) × Scopes ν :=
  match s.live.get? session with
  | none => ([], s)
  | some scope =>
    let (_, duties, s) := { s with live := s.live.erase session }.fire scope.signal
    Cascade.run s duties

def trigger (s : Scopes ν) (signal : SignalId) : Bool × List (Note ν) × Scopes ν :=
  let (first, duties, s) := s.fire signal
  (first, Cascade.run s duties)

def onCancel (s : Scopes ν) (signal : SignalId) (callback : Callback ν) :
    List (Note ν) × Scopes ν :=
  let (duties, s) := s.enlist signal callback
  Cascade.run s duties

end Scopes

end ConsoleShell
