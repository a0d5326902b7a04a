import ConsoleShell.Dict
import ConsoleShell.Output.Buffer
/-! The console of every open session. Whoever has subscribed is told of each change, and of
nothing else; output for a session that is not open is dropped. -/
namespace ConsoleShell

inductive OutputChange where
  | appended (group : GroupId) (kind : OutputKind) (lines : List Line)
  | updated (group : GroupId) (lines : List Line)
  | deleted (group : GroupId)
  | cleared
  deriving DecidableEq, Repr

structure OutputEvent where
  session : SessionId
  change : OutputChange
  deriving DecidableEq, Repr

structure Console where
  buffers : Dict SessionId Buffer := .empty
  /-- The events that the subscriber has not taken yet; without a subscriber there are none. -/
  feed : Option (List OutputEvent) := none
  deriving DecidableEq, Repr

namespace Console

def empty : Console := {}

def publish (c : Console) (session : SessionId) (change : OutputChange) : Console :=
  { c with feed := c.feed.map (· ++ [⟨session, change⟩]) }

def subscribe (c : Console) : Console := { c with feed := some [] }

def unsubscribe (c : Console) : Console := { c with feed := none }

def takeEvents (c : Console) : List OutputEvent × Console :=
  (c.feed.getD [], { c with feed := c.feed.map fun _ => [] })

def buffer? (c : Console) (session : SessionId) : Option Buffer := c.buffers.get? session

def setBuffer (c : Console) (session : SessionId) (b : Buffer) : Console :=
  { c with buffers := c.buffers.insert session b }

def «open» (c : Console) (session : SessionId) : Console :=
  if c.buffers.contains session then c else c.setBuffer session .empty

def close (c : Console) (session : SessionId) : Console :=
  { c with buffers := c.buffers.erase session }

def pushLines (c : Console) (session : SessionId) (kind : OutputKind) (lines : List Line) :
    Option GroupId × Console :=
  match c.buffer? session with
  | none => (none, c)
  | some b =>
    let (id, b) := b.pushLines kind lines
    (some id, (c.setBuffer session b).publish session (.appended id kind lines))

def print (c : Console) (session : SessionId) (kind : OutputKind) (text : Text) :
    Option GroupId × Console :=
  c.pushLines session kind (Render.text kind text)

def replay (c : Console) (session : SessionId) (group : Group) : Option GroupId × Console :=
  c.pushLines session group.kind group.lines

/-- Whether the group is there. A change is told only if the lines differ. -/
def update (c : Console) (session : SessionId) (id : GroupId) (text : Text) : Bool × Console :=
  match c.buffer? session with
  | none => (false, c)
  | some b =>
    match b.update id text with
    | (.changed, b) =>
      let lines := ((b.group? id).map Group.lines).getD []
      (true, (c.setBuffer session b).publish session (.updated id lines))
    | (.unchanged, _) => (true, c)
    | (.missing, _) => (false, c)

def delete (c : Console) (session : SessionId) (id : GroupId) : Bool × Console :=
  match c.buffer? session with
  | none => (false, c)
  | some b =>
    match b.delete id with
    | (true, b) => (true, (c.setBuffer session b).publish session (.deleted id))
    | (false, _) => (false, c)

def clear (c : Console) (session : SessionId) : Console :=
  match c.buffer? session with
  | none => c
  | some b => (c.setBuffer session b.clear).publish session .cleared

end Console

end ConsoleShell
