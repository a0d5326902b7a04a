import ConsoleShell.Output.Console
import ConsoleShell.Proofs.Dict

/-! What a subscriber is told of the consoles. Whoever copies the groups of a session when it subscribes
and carries out every change that it is told of has the groups that the session has. -/
namespace ConsoleShell.ConsoleFeed

inductive Act where
  | openSession (session : SessionId)
  | print (session : SessionId) (kind : OutputKind) (text : Text)
  | update (session : SessionId) (group : GroupId) (text : Text)
  | delete (session : SessionId) (group : GroupId)
  | clear (session : SessionId)
  | replay (session : SessionId) (group : Group)
  | close (session : SessionId)

namespace Act

def session : Act → SessionId
  | openSession session | print session _ _ | update session _ _ | delete session _
  | clear session | replay session _ | close session => session

def run (c : Console) : Act → Console
  | openSession session => c.open session
  | print session kind text => (c.print session kind text).2
  | update session group text => (c.update session group text).2
  | delete session group => (c.delete session group).2
  | clear session => c.clear session
  | replay session group => (c.replay session group).2
  | close session => c.close session

end Act

abbrev Copy := List (GroupId × List Line)

def Copy.ofBuffer (b : Buffer) : Copy := b.groups.map fun g => (g.id, g.lines)

def copyOf (c : Console) (session : SessionId) : Copy :=
  ((c.buffer? session).map Copy.ofBuffer).getD []

def Copy.change (copy : Copy) : OutputChange → Copy
  | .appended group _ lines => copy ++ [(group, lines)]
  | .updated group lines => copy.map fun e => if e.1 = group then (group, lines) else e
  | .deleted group => copy.filter fun e => !decide (e.1 = group)
  | .cleared => []

def Copy.follow (copy : Copy) (session : SessionId) (events : List OutputEvent) : Copy :=
  (events.filter fun e => e.session = session).foldl (fun copy e => copy.change e.change) copy

/- The consoles, and all events that their subscriber has taken so far. -/
structure Feed where
  console : Console
  received : List OutputEvent := []

inductive Move where
  | act (a : Act)
  | take

namespace Feed

def ofSubscriber (c : Console) : Feed := { console := c.subscribe }

def published (f : Feed) : List OutputEvent := f.received ++ f.console.feed.getD []

def move (f : Feed) : Move → Feed
  | .act a => { f with console := a.run f.console }
  | .take =>
    { console := f.console.takeEvents.2, received := f.received ++ f.console.takeEvents.1 }

def after (f : Feed) (moves : List Move) : Feed := moves.foldl move f

end Feed

theorem copyPush (b : Buffer) (kind : OutputKind) (lines : List Line) :
    Copy.ofBuffer (b.pushLines kind lines).2 =
      (Copy.ofBuffer b).change (.appended (b.pushLines kind lines).1 kind lines) := by
  simp [Copy.ofBuffer, Copy.change, Buffer.pushLines]

theorem groupFound {b : Buffer} {id : GroupId} {group : Group} (found : b.group? id = some group) :
    group.id = id :=
  of_decide_eq_true (List.find?_some (p := fun g : Group => decide (g.id = id)) found)

theorem copyUpdate {b next : Buffer} {id : GroupId} {text : Text}
    (changed : b.update id text = (.changed, next)) :
    Copy.ofBuffer next =
      (Copy.ofBuffer b).change (.updated id (((next.group? id).map Group.lines).getD [])) := by
  unfold Buffer.update at changed
  split at changed
  · cases changed
  rename_i group found
  dsimp only at changed
  generalize Render.text group.kind text = lines at changed
  split at changed
  · cases changed
  cases changed
  have told : (({ b with groups := b.groups.map fun g =>
      if g.id = id then { g with lines } else g } : Buffer).group? id).map Group.lines = some lines := by
    have number (g : Group) : (if g.id = id then { g with lines } else g).id = g.id := by
      split <;> rfl
    unfold Buffer.group? at found ⊢
    simp only [List.find?_map, Function.comp_def, number, found, Option.map_some]
    rw [if_pos (groupFound found)]
  rw [told]
  simp only [Copy.ofBuffer, Copy.change, List.map_map, Option.getD_some]
  refine List.map_congr_left fun g _ => ?_
  by_cases same : g.id = id <;> simp [same]

theorem copyDelete (b : Buffer) (id : GroupId) :
    Copy.ofBuffer (b.delete id).2 = (Copy.ofBuffer b).change (.deleted id) := by
  simp [Copy.ofBuffer, Copy.change, Buffer.delete, List.filter_map, Function.comp_def]

inductive Effect (c : Console) (session : SessionId) : Console → List OutputChange → Prop where
  | none : Effect c session c []
  | opened (absent : c.buffer? session = .none) : Effect c session (c.setBuffer session .empty) []
  | told {b next : Buffer} {change : OutputChange} (found : c.buffer? session = some b)
      (copied : Copy.ofBuffer next = (Copy.ofBuffer b).change change) :
      Effect c session ((c.setBuffer session next).publish session change) [change]

theorem pushEffect (c : Console) (session : SessionId) (kind : OutputKind) (lines : List Line) :
    ∃ changes, Effect c session (c.pushLines session kind lines).2 changes := by
  unfold Console.pushLines
  split
  · exact ⟨_, .none⟩
  · rename_i b found
    exact ⟨_, .told found (copyPush b kind lines)⟩

theorem actEffect (c : Console) (a : Act) :
    a = .close a.session ∨ ∃ changes, Effect c a.session (a.run c) changes := by
  cases a with
  | close session => exact .inl rfl
  | openSession session =>
    refine .inr ?_
    change ∃ changes, Effect c session (c.open session) changes
    unfold Console.open Dict.contains
    cases found : c.buffers.get? session with
    | none => exact ⟨_, .opened found⟩
    | some b => exact ⟨_, .none⟩
  | print session kind text => exact .inr (pushEffect c session kind (Render.text kind text))
  | replay session group => exact .inr (pushEffect c session group.kind group.lines)
  | update session id text =>
    refine .inr ?_
    change ∃ changes, Effect c session (c.update session id text).2 changes
    unfold Console.update
    split
    · exact ⟨_, .none⟩
    · rename_i b found
      split
      · rename_i next changed
        exact ⟨_, .told found (copyUpdate changed)⟩
      · exact ⟨_, .none⟩
      · exact ⟨_, .none⟩
  | delete session id =>
    refine .inr ?_
    change ∃ changes, Effect c session (c.delete session id).2 changes
    unfold Console.delete
    split
    · exact ⟨_, .none⟩
    · rename_i b found
      split
      · rename_i next deleted
        have same : next = (b.delete id).2 := (congrArg Prod.snd deleted).symm
        exact ⟨_, .told found (same ▸ copyDelete b id)⟩
      · exact ⟨_, .none⟩
  | clear session =>
    refine .inr ?_
    change ∃ changes, Effect c session (c.clear session) changes
    unfold Console.clear
    split
    · exact ⟨_, .none⟩
    · rename_i b found
      exact ⟨_, .told found rfl⟩

theorem copySet (c : Console) (session other : SessionId) (b : Buffer) :
    copyOf (c.setBuffer session b) other =
      if other = session then Copy.ofBuffer b else copyOf c other := by
  unfold copyOf Console.buffer? Console.setBuffer
  rw [Dict.getInsert]
  split <;> rfl

structure Tells (c : Console) (a : Act) (changes : List OutputChange) : Prop where
  feed : (a.run c).feed = c.feed.map (· ++ changes.map fun change => ⟨a.session, change⟩)
  elsewhere : ∀ other, other ≠ a.session → copyOf (a.run c) other = copyOf c other
  here : a ≠ .close a.session →
    copyOf (a.run c) a.session = changes.foldl Copy.change (copyOf c a.session)

theorem effectTells {c : Console} {a : Act} {changes : List OutputChange}
    (done : Effect c a.session (a.run c) changes) : Tells c a changes := by
  generalize next : a.run c = after at done
  cases done with
  | none =>
    refine ⟨?_, fun other _ => congrArg (copyOf · other) next, fun _ => congrArg (copyOf · _) next⟩
    cases feed : c.feed <;> simp [next, feed]
  | opened absent =>
    refine ⟨?_, fun other different => ?_, fun _ => ?_⟩
    · cases feed : c.feed <;> simp [next, Console.setBuffer, feed]
    · rw [next, copySet, if_neg different]
    · rw [next, copySet, if_pos rfl]
      simp [copyOf, absent, Copy.ofBuffer, Buffer.empty]
  | @told b buffer change found copied =>
    have copies (other : SessionId) :
        copyOf (a.run c) other = if other = a.session then Copy.ofBuffer buffer else copyOf c other := by
      rw [next]
      exact copySet c a.session other buffer
    refine ⟨?_, fun other different => ?_, fun _ => ?_⟩
    · cases feed : c.feed <;> simp [next, Console.publish, Console.setBuffer, feed]
    · rw [copies, if_neg different]
    · rw [copies, if_pos rfl]
      simp [copyOf, found, copied]

theorem actTells (c : Console) (a : Act) : ∃ changes, Tells c a changes := by
  rcases actEffect c a with closes | ⟨changes, done⟩
  · refine ⟨[], ?_, fun other different => ?_, fun stays => absurd closes stays⟩
    · rw [closes]
      cases feed : c.feed <;> simp [Act.run, Console.close, feed]
    · rw [closes]
      unfold copyOf Console.buffer? Act.run Console.close
      rw [Dict.getErase, if_neg different]
  · exact ⟨changes, effectTells done⟩

theorem followAppend (copy : Copy) (session : SessionId) (before after : List OutputEvent) :
    copy.follow session (before ++ after) = (copy.follow session before).follow session after := by
  simp [Copy.follow, List.filter_append]

theorem followTold (copy : Copy) (session other : SessionId) (changes : List OutputChange) :
    copy.follow session (changes.map fun change => ⟨other, change⟩) =
      if other = session then changes.foldl Copy.change copy else copy := by
  unfold Copy.follow
  by_cases same : other = session
  · rw [if_pos same, List.filter_eq_self.mpr (by simp [same]), List.foldl_map]
  · rw [if_neg same, List.filter_eq_nil_iff.mpr (by simp [same])]
    rfl

structure Copied (start : Copy) (session : SessionId) (f : Feed) : Prop where
  listens : f.console.feed.isSome = true
  copy : start.follow session f.published = copyOf f.console session

theorem copiedMove {start : Copy} {session : SessionId} {f : Feed} (copied : Copied start session f)
    {m : Move} (stays : ∀ a, m = .act a → a ≠ .close session) : Copied start session (f.move m) := by
  obtain ⟨waiting, feed⟩ := Option.isSome_iff_exists.mp copied.listens
  have before := copied.copy
  simp only [Feed.published, feed, Option.getD_some] at before
  cases m with
  | take =>
    refine ⟨by simp [Feed.move, Console.takeEvents, feed], ?_⟩
    simp only [Feed.move, Feed.published, Console.takeEvents, feed, Option.getD_some, Option.map_some,
      List.append_nil]
    exact before
  | act a =>
    obtain ⟨changes, tells⟩ := actTells f.console a
    have after : (a.run f.console).feed =
        some (waiting ++ changes.map fun change => ⟨a.session, change⟩) := by
      rw [tells.feed, feed, Option.map_some]
    refine ⟨by simp [Feed.move, after], ?_⟩
    simp only [Feed.move, Feed.published, after, Option.getD_some]
    rw [← List.append_assoc, followAppend, before, followTold]
    split
    · rename_i same
      subst same
      exact (tells.here (stays a rfl)).symm
    · rename_i different
      exact (tells.elsewhere session (Ne.symm different)).symm

theorem copiedAfter {start : Copy} {session : SessionId} {f : Feed} (copied : Copied start session f)
    {moves : List Move} (stays : .act (.close session) ∉ moves) :
    Copied start session (f.after moves) := by
  induction moves generalizing f with
  | nil => exact copied
  | cons m later ih =>
    rw [List.mem_cons, not_or] at stays
    refine ih (copiedMove copied fun a same closes => ?_) stays.2
    exact stays.1 (closes ▸ same.symm)

structure Silent (c : Console) : Prop where
  unchanged : ∀ session id text b group, c.buffer? session = some b → b.group? id = some group →
    Render.text group.kind text = group.lines → ((Act.update session id text).run c).feed = c.feed
  missing : ∀ session id, (∀ b, c.buffer? session = some b → b.group? id = none) →
    (∀ text, ((Act.update session id text).run c).feed = c.feed) ∧
      ((Act.delete session id).run c).feed = c.feed
  notOpen : ∀ a : Act, c.buffer? a.session = none → (a.run c).feed = c.feed
  own : ∀ a : Act, ∃ told : List OutputEvent, (∀ e ∈ told, e.session = a.session) ∧
    (a.run c).feed = c.feed.map (· ++ told)

theorem silent (c : Console) : Silent c where
  unchanged session id text b group found there same := by
    change (c.update session id text).2.feed = c.feed
    simp [Console.update, found, Buffer.update, there, same]
  missing session id absent := by
    constructor
    · intro text
      change (c.update session id text).2.feed = c.feed
      cases found : c.buffer? session with
      | none => simp [Console.update, found]
      | some b => simp [Console.update, found, Buffer.update, absent b found]
    · change (c.delete session id).2.feed = c.feed
      cases found : c.buffer? session with
      | none => simp [Console.delete, found]
      | some b => simp [Console.delete, found, Buffer.delete, absent b found]
  notOpen a absent := by
    cases a with
    | openSession session =>
      change (c.open session).feed = c.feed
      unfold Console.open
      split <;> rfl
    | print session kind text | replay session group =>
      change (c.pushLines session _ _).2.feed = c.feed
      unfold Console.pushLines
      rw [show c.buffer? session = none from absent]
    | update session id text =>
      change (c.update session id text).2.feed = c.feed
      unfold Console.update
      rw [show c.buffer? session = none from absent]
    | delete session id =>
      change (c.delete session id).2.feed = c.feed
      unfold Console.delete
      rw [show c.buffer? session = none from absent]
    | clear session =>
      change (c.clear session).feed = c.feed
      unfold Console.clear
      rw [show c.buffer? session = none from absent]
    | close session => rfl
  own a := by
    obtain ⟨changes, tells⟩ := actTells c a
    refine ⟨changes.map fun change => ⟨a.session, change⟩, ?_, tells.feed⟩
    simp

/- From a subscription on, whatever is done to whatever sessions, and whenever the subscriber takes the
events: whoever follows them has the groups of every session that has not been closed. -/
theorem feedMirrors (c : Console) (moves : List Move) :
    (∀ session, .act (.close session) ∉ moves →
      (copyOf c session).follow session ((Feed.ofSubscriber c).after moves).published =
        copyOf ((Feed.ofSubscriber c).after moves).console session) ∧
      Silent ((Feed.ofSubscriber c).after moves).console := by
  refine ⟨fun session stays => ?_, silent _⟩
  have start : Copied (copyOf c session) session (Feed.ofSubscriber c) := ⟨rfl, rfl⟩
  exact (copiedAfter start stays).copy

end ConsoleShell.ConsoleFeed
