import ConsoleShell.Command.Registry

/-! Following aliases. From a name on, the first word of a row of words gives way to the words of its alias,
again and again, but no more than ten times, and not behind a name that was passed before. -/
namespace ConsoleShell.AliasChains

inductive Stands (aliases : Dict Text Text) (name : Text) : List Text → Prop where
  | words {target words} (listed : aliases.get? name = some target) (read : tokenize target = .ok words) :
      Stands aliases name words
  | blanks {target error} (listed : aliases.get? name = some target)
      (unread : tokenize target = .error error) : Stands aliases name (Text.words target)

/- The row of words that a name has come to, and the names that were passed on the way, one for each alias
that was followed. There was no reason to stop at any of them. -/
inductive Follows (aliases : Dict Text Text) (name : Text) : List Text → List Text → Prop where
  | start : Follows aliases name [] [name]
  | hop {passed head rest words} (before : Follows aliases name passed (head :: rest))
      (fresh : head ∉ passed) (short : passed.length < 10) (stands : Stands aliases head words)
      (full : words ≠ []) : Follows aliases name (passed ++ [head]) (words ++ rest)

inductive Stops (aliases : Dict Text Text) (passed : List Text) (head : Text) : Prop where
  | unlisted (missing : aliases.get? head = none)
  | limit (reached : passed.length = 10)
  | empty (stands : Stands aliases head [])
  | visited (again : head ∈ passed)

structure Ends (aliases : Dict Text Text) (name : Text) (passed : List Text) (r : AliasResolution) :
    Prop where
  hops : r.hops = passed.length
  row : Follows aliases name passed (r.command :: r.arguments)
  stops : Stops aliases passed r.command
  truncated : r.truncated = true ↔
    passed.length = 10 ∧ r.command ∉ passed ∧ ∃ target, aliases.get? r.command = some target

inductive Leads (aliases : Dict Text Text) : Nat → Text → Text → Prop where
  | here {name} : Leads aliases 0 name name
  | hop {n start head next rest} (before : Leads aliases n start head)
      (stands : Stands aliases head (next :: rest)) : Leads aliases (n + 1) start next

/- Where a name leads. One that leads back to itself is never broken off. -/
structure Resolved (aliases : Dict Text Text) (name : Text) (r : AliasResolution) : Prop where
  bounded : r.hops ≤ 10
  ends : ∃ passed, Ends aliases name passed r
  cyclic : ∀ n, 0 < n → n ≤ 10 → Leads aliases n name name → r.truncated = false

variable {aliases : Dict Text Text} {name : Text} {passed row : List Text}

theorem standsIff {words : List Text} : Stands aliases name words ↔
    ∃ target, aliases.get? name = some target ∧ Alias.targetWords target = words := by
  constructor
  · rintro (⟨listed, read⟩ | ⟨listed, unread⟩)
    · exact ⟨_, listed, by simp [Alias.targetWords, read]⟩
    · exact ⟨_, listed, by simp [Alias.targetWords, unread]⟩
  · rintro ⟨target, listed, rfl⟩
    unfold Alias.targetWords
    cases read : tokenize target with
    | ok words => exact .words listed read
    | error error => exact .blanks listed read

theorem standsOnce {first second : List Text} (left : Stands aliases name first)
    (right : Stands aliases name second) : first = second := by
  obtain ⟨target, listed, rfl⟩ := standsIff.mp left
  obtain ⟨other, again, rfl⟩ := standsIff.mp right
  rw [Option.some.inj (listed.symm.trans again)]

theorem leadsOnce {n : Nat} {start first second : Text} (left : Leads aliases n start first)
    (right : Leads aliases n start second) : first = second := by
  induction left generalizing second with
  | here =>
    cases right
    rfl
  | hop before stands ih =>
    cases right with
    | hop other again =>
      cases ih other
      exact (List.cons.inj (standsOnce stands again)).1

theorem Follows.bounded (follows : Follows aliases name passed row) : passed.length ≤ 10 := by
  cases follows with
  | start => simp
  | hop before fresh short stands full =>
    rw [List.length_append, List.length_singleton]
    omega

theorem Follows.leads (follows : Follows aliases name passed row) {head : Text} {rest : List Text}
    (same : row = head :: rest) : Leads aliases passed.length name head := by
  induction follows generalizing head rest with
  | start =>
    cases same
    exact .here
  | @hop passed first others words before fresh short stands full ih =>
    obtain ⟨next, more, rfl⟩ := List.exists_cons_of_ne_nil full
    cases same
    rw [List.length_append, List.length_singleton]
    exact .hop (ih rfl) stands

theorem Follows.started (follows : Follows aliases name passed row) :
    (passed = [] ∧ row = [name]) ∨ name ∈ passed := by
  induction follows with
  | start => exact .inl ⟨rfl, rfl⟩
  | hop before fresh short stands full ih =>
    right
    rcases ih with ⟨rfl, same⟩ | mem
    · cases same
      exact List.mem_singleton_self name
    · exact List.mem_append_left _ mem

theorem Follows.passes (follows : Follows aliases name passed row) (away : 0 < passed.length) :
    name ∈ passed := by
  rcases follows.started with ⟨rfl, -⟩ | mem
  · contradiction
  · exact mem

theorem Follows.onward (follows : Follows aliases name passed row) {n : Nat} (away : 0 < n)
    (early : n < passed.length) : ¬ Leads aliases n name name := by
  induction follows generalizing n with
  | start => contradiction
  | @hop passed head rest words before fresh short stands full ih =>
    intro back
    rw [List.length_append, List.length_singleton] at early
    rcases Nat.lt_or_eq_of_le (Nat.le_of_lt_succ early) with earlier | rfl
    · exact ih away earlier back
    · cases leadsOnce (before.leads rfl) back
      exact fresh (before.passes away)

theorem Ends.cyclic {r : AliasResolution} (ends : Ends aliases name passed r) {n : Nat} (away : 0 < n)
    (near : n ≤ 10) (back : Leads aliases n name name) : r.truncated = false := by
  rw [← Bool.not_eq_true, ends.truncated]
  rintro ⟨ten, fresh, -⟩
  rcases Nat.lt_or_eq_of_le near with early | rfl
  · exact ends.row.onward away (ten ▸ early) back
  · have leads := ends.row.leads rfl
    rw [ten] at leads
    cases leadsOnce leads back
    exact fresh (ends.row.passes (ten ▸ away))

section Follow

variable {found : AliasResolution} {visited : List Text} {remaining : Nat} {target : Text}

theorem followNone (noAlias : aliases.get? found.command = none) (remaining : Nat) (visited : List Text) :
    Alias.follow aliases remaining visited found = found := by
  -- The name is looked up before it matters how many more aliases may be followed.
  cases remaining
  all_goals
    delta Alias.follow
    conv => lhs; whnf
    rw [noAlias]

theorem followLimit (listed : aliases.get? found.command = some target) :
    Alias.follow aliases 0 visited found = { found with truncated := true } := by
  delta Alias.follow
  conv => lhs; whnf
  rw [listed]

theorem followEmpty (listed : aliases.get? found.command = some target)
    (empty : Alias.targetWords target = []) :
    Alias.follow aliases (remaining + 1) visited found = found := by
  delta Alias.follow
  conv => lhs; whnf
  rw [listed]
  dsimp only
  rw [empty]

theorem followWords {head : Text} {rest : List Text} (listed : aliases.get? found.command = some target)
    (words : Alias.targetWords target = head :: rest) :
    Alias.follow aliases (remaining + 1) visited found =
      let next : AliasResolution := ⟨head, rest ++ found.arguments, found.hops + 1, false⟩
      if head ∈ visited then next else Alias.follow aliases remaining (head :: visited) next := by
  delta Alias.follow
  conv => lhs; whnf
  rw [listed]
  dsimp only
  rw [words]

theorem followed (row : Follows aliases name passed (found.command :: found.arguments))
    (fresh : found.command ∉ passed) (hops : found.hops = passed.length)
    (untruncated : found.truncated = false) (left : remaining + passed.length = 10)
    (seen : ∀ other, other ∈ visited ↔ other ∈ passed ++ [found.command]) :
    ∃ passed, Ends aliases name passed (Alias.follow aliases remaining visited found) := by
  induction remaining generalizing passed visited found with
  | zero =>
    have ten : passed.length = 10 := by omega
    cases listed : aliases.get? found.command with
    | none =>
      rw [followNone listed]
      exact ⟨passed, hops, row, .unlisted listed, by simp [untruncated, listed]⟩
    | some target =>
      rw [followLimit listed]
      exact ⟨passed, hops, row, .limit ten, by simp [ten, fresh, listed]⟩
  | succ remaining ih =>
    have short : passed.length < 10 := by omega
    cases listed : aliases.get? found.command with
    | none =>
      rw [followNone listed]
      exact ⟨passed, hops, row, .unlisted listed, by simp [untruncated, listed]⟩
    | some target =>
      cases words : Alias.targetWords target with
      | nil =>
        rw [followEmpty listed words]
        have stands := standsIff.mpr ⟨target, listed, words⟩
        exact ⟨passed, hops, row, .empty stands, by simp [untruncated, Nat.ne_of_lt short]⟩
      | cons head rest =>
        rw [followWords listed words]
        have hop := row.hop fresh short (standsIff.mpr ⟨target, listed, words⟩) (by simp)
        dsimp only
        split
        · rename_i again
          have back : head ∈ passed ++ [found.command] := (seen head).mp again
          exact ⟨passed ++ [found.command], by simp [hops], hop, .visited back, by simp [back]⟩
        · rename_i new
          refine ih hop (fun back => new ((seen head).mpr back)) (by simp [hops]) rfl ?_ fun other => ?_
          · rw [List.length_append, List.length_singleton]
            omega
          · rw [List.mem_cons, seen other]
            simp [or_comm, or_assoc]

end Follow

theorem resolvesByRewriting {ρ : Type} (registry : Registry ρ) (name : Text) :
    Resolved registry.aliases name (registry.resolve name) := by
  have unhopped : Follows registry.aliases name [] [name] := .start
  obtain ⟨passed, ends⟩ : ∃ passed, Ends registry.aliases name passed (registry.resolve name) :=
    followed unhopped (by simp) rfl rfl rfl (by simp)
  exact ⟨ends.hops ▸ ends.row.bounded, ⟨passed, ends⟩, fun n => ends.cyclic⟩

end ConsoleShell.AliasChains
