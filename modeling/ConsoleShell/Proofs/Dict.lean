import ConsoleShell.Dict

/-! The entries of a dictionary after a change: whatever every entry had before and the new value
has, every entry has afterwards. -/
namespace ConsoleShell.Dict

variable {κ α : Type} {P : α → Prop}

def Every (P : α → Prop) (d : Dict κ α) : Prop := ∀ entry ∈ d.entries, P entry.2

theorem everyEmpty : Every P (empty : Dict κ α) := by
  intro entry mem
  contradiction

theorem everyKeep {d : Dict κ α} (h : d.Every P) (test : α → Bool) : (d.keep test).Every P := by
  intro entry mem
  exact h entry (List.mem_filter.mp mem).1

section Keyed

variable [DecidableEq κ]

theorem foundEntry {d : Dict κ α} {key : κ} {value : α} (found : d.get? key = some value) :
    (key, value) ∈ d.entries := by
  obtain ⟨entries⟩ := d
  change entries.lookup key = some value at found
  induction entries with
  | nil => simp at found
  | cons entry rest ih =>
    rw [lookupCons] at found
    split at found
    · rename_i same
      subst same
      cases Option.some.inj found
      exact List.mem_cons_self
    · exact List.mem_cons_of_mem _ (ih found)

theorem everyFound {d : Dict κ α} (h : d.Every P) {key : κ} {value : α}
    (found : d.get? key = some value) : P value :=
  h _ (foundEntry found)

theorem keyFound {d : Dict κ α} {key : κ} : key ∈ d.keys ↔ d.contains key = true := by
  unfold contains
  rw [Option.isSome_iff_exists]
  constructor
  · intro mem
    obtain ⟨entries⟩ := d
    change ∃ value, entries.lookup key = some value
    change key ∈ entries.map Prod.fst at mem
    induction entries with
    | nil => contradiction
    | cons entry rest ih =>
      rw [lookupCons]
      split
      · exact ⟨_, rfl⟩
      · rename_i different
        exact ih ((List.mem_cons.mp mem).resolve_left different)
  · rintro ⟨value, found⟩
    exact List.mem_map_of_mem (foundEntry found)

theorem everyErase {d : Dict κ α} (h : d.Every P) (key : κ) : (d.erase key).Every P := by
  intro entry mem
  exact h entry (List.mem_filter.mp mem).1

theorem containsErase (d : Dict κ α) (key other : κ) :
    (d.erase key).contains other = (!decide (other = key) && d.contains other) := by
  unfold contains
  rw [getErase]
  by_cases same : other = key <;> simp [same]

theorem containsModify (d : Dict κ α) (key other : κ) (f : α → α) :
    (d.modify key f).contains other = d.contains other := by
  unfold contains
  rw [getModify]
  split <;> simp

end Keyed

section Ordered

variable [DecidableEq κ] [LT κ]

def Sorted (d : Dict κ α) : Prop := d.keys.Pairwise (· < ·)

theorem sortedErase {d : Dict κ α} (h : d.Sorted) (key : κ) : (d.erase key).Sorted :=
  h.sublist (List.filter_sublist.map Prod.fst)

omit [DecidableEq κ] in
theorem sortedKeys {d : Dict κ α} (h : d.Sorted) (strict : ∀ a : κ, ¬ a < a) : d.keys.Nodup := by
  refine List.Pairwise.imp (fun {a b} less => ?_) h
  rintro rfl
  exact strict _ less

omit [DecidableEq κ] in
theorem sortedKeep {d : Dict κ α} (h : d.Sorted) (test : α → Bool) : (d.keep test).Sorted :=
  h.sublist (List.filter_sublist.map Prod.fst)

theorem foundIff {d : Dict κ α} (h : d.Sorted) (strict : ∀ a : κ, ¬ a < a) {key : κ} {value : α} :
    d.get? key = some value ↔ (key, value) ∈ d.entries := by
  refine ⟨foundEntry, fun mem => ?_⟩
  have unique := sortedKeys h strict
  obtain ⟨entries⟩ := d
  change entries.lookup key = some value
  change (entries.map Prod.fst).Nodup at unique
  change (key, value) ∈ entries at mem
  clear h
  induction entries with
  | nil => contradiction
  | cons entry rest ih =>
    obtain ⟨absent, others⟩ := List.nodup_cons.mp unique
    rw [lookupCons]
    rcases List.mem_cons.mp mem with rfl | later
    · simp
    · rw [if_neg, ih others later]
      rintro rfl
      exact absent (List.mem_map.mpr ⟨_, later, rfl⟩)

theorem foundKeep {d : Dict κ α} (h : d.Sorted) (strict : ∀ a : κ, ¬ a < a) (test : α → Bool)
    {key : κ} {value : α} :
    (d.keep test).get? key = some value ↔ d.get? key = some value ∧ test value = true := by
  rw [foundIff (sortedKeep h test) strict, foundIff h strict]
  exact List.mem_filter

variable [DecidableLT κ]

theorem insertedEntry {key : κ} {value : α} {entries : List (κ × α)} {entry : κ × α}
    (mem : entry ∈ insertEntry key value entries) : entry = (key, value) ∨ entry ∈ entries := by
  induction entries with
  | nil => simpa [insertEntry] using mem
  | cons first rest ih =>
    simp only [insertEntry] at mem
    split at mem
    · rcases List.mem_cons.mp mem with same | later
      · exact .inl same
      · exact .inr (List.mem_cons_of_mem _ later)
    · split at mem
      · exact List.mem_cons.mp mem
      · rcases List.mem_cons.mp mem with same | later
        · exact .inr (same ▸ List.mem_cons_self)
        · exact (ih later).imp_right (List.mem_cons_of_mem _)

theorem everyInsert {d : Dict κ α} (h : d.Every P) {value : α} (holds : P value) (key : κ) :
    (d.insert key value).Every P := by
  intro entry mem
  rcases insertedEntry mem with rfl | mem
  · exact holds
  · exact h entry mem

theorem containsInsert (d : Dict κ α) (key other : κ) (value : α) :
    (d.insert key value).contains other = (decide (other = key) || d.contains other) := by
  unfold contains
  rw [getInsert]
  by_cases same : other = key <;> simp [same]

theorem everyOfList {entries : List (κ × α)} (each : ∀ entry ∈ entries, P entry.2) :
    (ofList entries).Every P := by
  suffices folded : ∀ d : Dict κ α, d.Every P →
      (entries.foldl (fun d entry => d.insert entry.1 entry.2) d).Every P from
    folded empty everyEmpty
  induction entries with
  | nil => exact fun d h => h
  | cons entry rest ih =>
    intro d h
    exact ih (fun later mem => each later (List.mem_cons_of_mem _ mem)) _
      (everyInsert h (each entry List.mem_cons_self) _)

theorem insertedKey {key : κ} {value : α} {entries : List (κ × α)} {other : κ}
    (mem : other ∈ (insertEntry key value entries).map Prod.fst) :
    other = key ∨ other ∈ entries.map Prod.fst := by
  obtain ⟨entry, listed, rfl⟩ := List.mem_map.mp mem
  rcases insertedEntry listed with rfl | before
  · exact .inl rfl
  · exact .inr (List.mem_map_of_mem before)

theorem sortedInsert (trans : ∀ a b c : κ, a < b → b < c → a < c)
    (total : ∀ a b : κ, a ≠ b → ¬ a < b → b < a) {d : Dict κ α} (h : d.Sorted) (key : κ)
    (value : α) : (d.insert key value).Sorted := by
  obtain ⟨entries⟩ := d
  change ((insertEntry key value entries).map Prod.fst).Pairwise (· < ·)
  change (entries.map Prod.fst).Pairwise (· < ·) at h
  induction entries with
  | nil => simp [insertEntry]
  | cons entry rest ih =>
    obtain ⟨first, later⟩ := List.pairwise_cons.mp h
    simp only [insertEntry]
    split
    · rename_i same
      subst same
      exact h
    · rename_i different
      split
      · rename_i before
        refine List.pairwise_cons.mpr ⟨fun other mem => ?_, h⟩
        rcases List.mem_cons.mp mem with rfl | mem
        · exact before
        · exact trans _ _ _ before (first other mem)
      · rename_i after
        refine List.pairwise_cons.mpr ⟨fun other mem => ?_, ih later⟩
        rcases insertedKey mem with rfl | mem
        · exact total _ _ different after
        · exact first other mem

theorem sortedFold (trans : ∀ a b c : κ, a < b → b < c → a < c)
    (total : ∀ a b : κ, a ≠ b → ¬ a < b → b < a) {β : Type} (key : β → κ) (value : β → α)
    (items : List β) {d : Dict κ α} (h : d.Sorted) :
    (items.foldl (fun d item => d.insert (key item) (value item)) d).Sorted := by
  induction items generalizing d with
  | nil => exact h
  | cons item rest ih => exact ih (sortedInsert trans total h _ _)

theorem foundOfList {entries : List (κ × α)} (once : (entries.map Prod.fst).Nodup) {key : κ}
    {value : α} : (ofList entries).get? key = some value ↔ (key, value) ∈ entries := by
  suffices folded : ∀ d : Dict κ α,
      (entries.foldl (fun d entry => d.insert entry.1 entry.2) d).get? key = some value ↔
        (key, value) ∈ entries ∨ key ∉ entries.map Prod.fst ∧ d.get? key = some value by
    refine (folded empty).trans ⟨fun found => found.resolve_right fun absent => ?_, .inl⟩
    simp [empty, get?] at absent
  induction entries with
  | nil => simp
  | cons entry rest ih =>
    intro d
    obtain ⟨absent, others⟩ := List.nodup_cons.mp once
    rw [List.foldl_cons, ih others, getInsert, List.map_cons, List.mem_cons, List.mem_cons, not_or]
    obtain ⟨first, second⟩ := entry
    by_cases same : key = first
    · subst same
      have gone (value : α) : (key, value) ∉ rest := fun mem =>
        absent (List.mem_map.mpr ⟨_, mem, rfl⟩)
      simp [absent, gone, eq_comm]
    · simp [same]

end Ordered

section Equal

variable [DecidableEq κ] [LT κ]

theorem equalSorted (strict : ∀ a : κ, ¬ a < a) (trans : ∀ a b c : κ, a < b → b < c → a < c)
    {d e : Dict κ α} (left : d.Sorted) (right : e.Sorted) (same : ∀ key, d.get? key = e.get? key) :
    d = e := by
  have members (entry : κ × α) : entry ∈ d.entries ↔ entry ∈ e.entries := by
    rw [← foundIff left strict, ← foundIff right strict, same]
  have ascends {d : Dict κ α} (h : d.Sorted) : d.entries.Pairwise fun a b => a.1 < b.1 :=
    List.pairwise_map.mp h
  have once {d : Dict κ α} (h : d.Sorted) : d.entries.Nodup := by
    refine List.Pairwise.imp (fun {a b} less => ?_) (ascends h)
    rintro rfl
    exact strict _ less
  have shuffled := (List.perm_ext_iff_of_nodup (once left) (once right)).mpr members
  have equal : d.entries = e.entries :=
    shuffled.eq_of_pairwise (fun a b _ _ less more => absurd (trans _ _ _ less more) (strict _))
      (ascends left) (ascends right)
  cases d
  cases e
  exact congrArg Dict.mk equal

end Equal
end ConsoleShell.Dict
