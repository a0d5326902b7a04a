import ConsoleShell.Proofs.Sound

/-! What calls from outside come to. Nobody waits to be told that something is cancelled or killed, so each
call changes just what it is about, and which tasks have a turn. -/
namespace ConsoleShell.Shell
open Captured

variable {s : Shell}

theorem cancelledQuietly (h : Clean s) (session : SessionId) :
    ∃ ready, (s.cancel session).2 = { s with scopes := (s.scopes.interrupt session).2.2, ready } := by
  unfold Shell.cancel
  rw [silentCancel h.scopes]
  exact ⟨_, rfl⟩

theorem killedQuietly (h : Clean s) (id : JobId) :
    ∃ ready, (s.killJob id).2 = { s with jobs := (s.jobs.kill id s.wall).2.2, ready } := by
  unfold Shell.killJob
  dsimp only
  rw [(silentKill h.signals id s.wall).1]
  exact ⟨_, rfl⟩

def killEach (j : Jobs Echo) (now : Nat) (jobs : List JobId) : Jobs Echo :=
  jobs.foldl (fun j id => (j.kill id now).2.2) j

theorem eachKilledQuietly (h : Clean s) (jobs : List JobId) :
    ∃ ready, jobs.foldl (fun s id => (s.killJob id).2) s =
      { s with jobs := killEach s.jobs s.wall jobs, ready } := by
  induction jobs generalizing s with
  | nil => exact ⟨s.ready, rfl⟩
  | cons id rest ih =>
    have clean := cleanKill h id
    obtain ⟨first, same⟩ := killedQuietly h id
    rw [same] at clean
    obtain ⟨ready, later⟩ := ih clean
    exact ⟨ready, by rw [List.foldl_cons, same, later]; rfl⟩

theorem closedQuietly (h : Clean s) (session : SessionId) :
    ∃ ready, s.closeSession session = { s with
      scopes := (s.scopes.discard session).2
      requests := (s.requests.cancel session).2
      jobs := killEach s.jobs s.wall (s.jobs.runningIn session)
      sessions := s.sessions.erase session
      console := s.console.close session
      exits := s.exits.filter fun other => !decide (other = session)
      ready } := by
  have stopped : ∃ ready, (s.onScopes ((), s.scopes.discard session)).2 =
      { s with scopes := (s.scopes.discard session).2, ready } := by
    unfold Shell.onScopes
    dsimp only
    rw [(silentDiscard h.scopes session).1]
    exact ⟨_, rfl⟩
  obtain ⟨first, stopped⟩ := stopped
  have clean := cleanDiscard h session
  unfold Shell.closeSession Shell.killJobsOf
  dsimp only
  rw [stopped] at clean ⊢
  have woken := clean.same (t := Shell.wake { s with
    scopes := (s.scopes.discard session).2, ready := first
    requests := (s.requests.cancel session).2 }) rfl rfl rfl
  obtain ⟨ready, killed⟩ := eachKilledQuietly woken (s.jobs.runningIn session)
  exact ⟨ready, congrArg (fun t : Shell => { t with
    sessions := t.sessions.erase session, console := t.console.close session
    exits := t.exits.filter fun other => !decide (other = session) }) killed⟩

theorem takenIn (s : Shell) (session : SessionId) (line : Text) :
    (∃ ready, (s.handleInput session line).2 =
      { s with requests := (s.requests.deliver session line).2, ready }) ∨
    (s.handleInput session line).2 =
      (Shell.execute { s with requests := (s.requests.deliver session line).2 } session line none).2 := by
  unfold Shell.handleInput
  dsimp only
  split
  · exact .inl ⟨_, rfl⟩
  · exact .inr rfl

end ConsoleShell.Shell
