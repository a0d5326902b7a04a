import ConsoleShell.Dict
import ConsoleShell.Id
import ConsoleShell.Text.Blank
import ConsoleShell.Text.LowerCase
/-! Requests of commands for the next line of their session. A session has at most one pending
request; a newer one replaces it. A request whose command has gone away stays in its place until
something comes upon it, but it takes no line. -/
namespace ConsoleShell

inductive InputError where
  | superseded
  | unavailable
  deriving DecidableEq, Repr

def InputError.message : InputError → Text
  | .superseded => "InputError: the input request was replaced by a newer one"
  | .unavailable => "InputError: interactive input is not available here"

structure RequestId where
  index : Nat
  deriving DecidableEq, Repr

inductive RequestState where
  | waiting
  | answered (line : Text)
  | replaced
  | closed
  deriving DecidableEq, Repr

inductive RequestResult where
  | pending
  | line (text : Text)
  | error (error : InputError)
  | closed
  deriving DecidableEq, Repr

structure Requests where
  /-- The state of every request that was made, at the place that its number says. -/
  states : List RequestState := []
  pending : Dict SessionId RequestId := .empty
  deriving DecidableEq, Repr

namespace Requests

def empty : Requests := {}

def state (r : Requests) (id : RequestId) : RequestState := r.states[id.index]?.getD .closed

def setState (r : Requests) (id : RequestId) (state : RequestState) : Requests :=
  { r with states := r.states.set id.index state }

def revoke (r : Requests) (id : RequestId) : Requests :=
  if r.state id = .waiting then r.setState id .replaced else r

/-- Makes a request. The request that stood in the session's place is told, with whether there
was one. -/
def await (r : Requests) (session : SessionId) : RequestId × Bool × Requests :=
  let id : RequestId := ⟨r.states.length⟩
  let previous := r.pending.get? session
  let r := (previous.map r.revoke).getD r
  (id, previous.isSome,
    { states := r.states ++ [.waiting], pending := r.pending.insert session id })

def replacementWarning (session : SessionId) : Text :=
  "Session " ++ session.display ++ ": replaced a pending input request"

def deliver (r : Requests) (session : SessionId) (line : Text) : Bool × Requests :=
  match r.pending.get? session with
  | none => (false, r)
  | some id =>
    let r := { r with pending := r.pending.erase session }
    if r.state id = .waiting then (true, r.setState id (.answered line)) else (false, r)

def hasPending (r : Requests) (session : SessionId) : Bool :=
  (r.pending.get? session).any fun id => r.state id = .waiting

def cancel (r : Requests) (session : SessionId) : Bool × Requests :=
  match r.pending.get? session with
  | none => (false, r)
  | some id => (true, { r with pending := r.pending.erase session }.revoke id)

def poll (r : Requests) (id : RequestId) : RequestResult × Requests :=
  match r.state id with
  | .waiting => (.pending, r)
  | .answered line => (.line line, r.setState id .closed)
  | .replaced => (.error .superseded, r.setState id .closed)
  | .closed => (.closed, r)

def abandon (r : Requests) (id : RequestId) : Requests := r.setState id .closed

end Requests

inductive Answer where
  | yes
  | no
  | unclear
  deriving DecidableEq, Repr

def Answer.ofLine (line : Text) : Answer :=
  let word := Text.lower (Text.trim line)
  if ([[], "y", "yes", "1", "true"] : List Text).contains word then .yes
  else if (["n", "no", "0", "false"] : List Text).contains word then .no
  else .unclear

end ConsoleShell
