import ConsoleShell.Proofs.Dict
import ConsoleShell.Proofs.FlagGrammar

/-! What the settings of a line leave in the flags. A flag holds the last value that the line sets for
it, and a flag that the line does not name holds the one that the schema has for it. -/
namespace ConsoleShell.FlagGrammar

theorem textStrict (a : Text) : ¬ a < a := List.lt_irrefl a

theorem textTrans (a b c : Text) (first : a < b) (second : b < c) : a < c :=
  List.lt_trans first second

theorem textTotal (a b : Text) (different : a ≠ b) (after : ¬ a < b) : b < a :=
  Decidable.byContradiction fun before =>
    different (List.le_antisymm (List.not_lt.mp before) (List.not_lt.mp after))

def lastSet? (taken : Settings) (name : Text) : Option FlagValue :=
  (taken.reverse.find? fun t => t.1.name = name).map Prod.snd

theorem lastSetNone {taken : Settings} {name : Text} :
    lastSet? taken name = none ↔ ∀ t ∈ taken, t.1.name ≠ name := by
  simp [lastSet?]

theorem lastSetSome {taken : Settings} {name : Text} {value : FlagValue}
    (last : lastSet? taken name = some value) : ∃ t ∈ taken, t.1.name = name ∧ t.2 = value := by
  obtain ⟨t, found, same⟩ := Option.map_eq_some_iff.mp last
  exact ⟨t, List.mem_reverse.mp (List.mem_of_find?_eq_some found),
    by simpa using List.find?_some found, same⟩

theorem lastSetCons (t : Flag × FlagValue) (rest : Settings) (name : Text) :
    lastSet? (t :: rest) name =
      (lastSet? rest name).or (if t.1.name = name then some t.2 else none) := by
  unfold lastSet?
  rw [List.reverse_cons, List.find?_append, Option.map_or]
  by_cases same : t.1.name = name <;> simp [same]

theorem lastSetAt {before later : Settings} {f : Flag} {value : FlagValue}
    (behind : ∀ t ∈ later, t.1.name ≠ f.name) :
    lastSet? (before ++ (f, value) :: later) f.name = some value := by
  induction before with
  | nil => simp [lastSetCons, lastSetNone.mpr behind]
  | cons t rest ih => rw [List.cons_append, lastSetCons, ih, Option.some_or]

section Recorded

variable {s : ArgumentScan}

theorem recordAllFlags (taken : Settings) : (recordAll s taken).flags =
    taken.foldl (fun d t => d.insert t.1.name ⟨some t.2, true⟩) s.flags := by
  induction taken generalizing s with
  | nil => rfl
  | cons t rest ih => exact ih (s := s.record t.1 t.2)

theorem recordAllFound (taken : Settings) (name : Text) : (recordAll s taken).flags.get? name =
    ((lastSet? taken name).map fun value => ⟨some value, true⟩).or (s.flags.get? name) := by
  induction taken generalizing s with
  | nil => simp [recordAll, lastSet?]
  | cons t rest ih =>
    refine (ih (s := s.record t.1 t.2)).trans ?_
    rw [lastSetCons, ArgumentScan.record, Dict.getInsert]
    cases lastSet? rest name with
    | some value => rfl
    | none =>
      by_cases same : name = t.1.name
      · simp [same]
      · simp [same, Ne.symm same]

theorem startSorted (schema : Schema) : (ArgumentScan.start schema).flags.Sorted :=
  Dict.sortedFold textTrans textTotal _ _ _ List.Pairwise.nil

theorem outcomeSorted (schema : Schema) (taken : Settings) (plain : List Text) :
    (outcome (.start schema) taken plain).flags.Sorted := by
  unfold outcome
  rw [recordAllFlags]
  exact Dict.sortedFold textTrans textTotal _ _ _ (startSorted schema)

end Recorded

theorem givenIff {a : Arguments} (sorted : a.flags.Sorted) {name : Text} :
    name ∈ a.given ↔ a.isGiven name = true := by
  unfold Arguments.given Arguments.isGiven
  rw [Dict.keyFound, Dict.contains, Option.isSome_iff_exists]
  constructor
  · rintro ⟨state, found⟩
    obtain ⟨found, given⟩ := (Dict.foundKeep sorted textStrict _).mp found
    simp [found, given]
  · intro given
    cases found : a.flags.get? name with
    | none => simp [found] at given
    | some state =>
      exact ⟨state, (Dict.foundKeep sorted textStrict _).mpr ⟨found, by simpa [found] using given⟩⟩

structure Leaves (defs : List Flag) (taken : Settings) (plain : List Text) (a : Arguments) : Prop where
  sorted : a.flags.Sorted
  keys : ∀ name, name ∈ a.flags.keys ↔ ∃ f ∈ defs, f.name = name
  given : ∀ name, name ∈ a.given ↔ ∃ t ∈ taken, t.1.name = name
  set : ∀ name value, lastSet? taken name = some value → a.value? name = some value
  unset : ∀ f ∈ defs, f.name ∉ a.given → f.Defaults (a.value? f.name)
  positionals : a.positionals = plain.map Markup.escape

section Outcomes

variable {defs : List Flag} {schema : Schema} (fits : schema.Fits defs)

include fits

theorem startFound {name : Text} {state : FlagState} :
    (ArgumentScan.start schema).flags.get? name = some state ↔
      ∃ entry ∈ schema.entries, entry.1.name = name ∧ state = ⟨entry.2, false⟩ := by
  have once : ((schema.entries.map fun entry => (entry.1.name, FlagState.mk entry.2 false)).map
      Prod.fst).Nodup := by
    rw [List.map_map]
    have own := Schema.ownNames fits.settledDistinct
    rw [Schema.flags, List.map_map] at own
    exact own
  refine (Dict.foundOfList once).trans (List.mem_map.trans (exists_congr fun entry => ?_))
  rw [Prod.mk.injEq, eq_comm (a := state)]

theorem startDeclared {name : Text} :
    (∃ state, (ArgumentScan.start schema).flags.get? name = some state) ↔
      ∃ f ∈ defs, f.name = name := by
  refine Iff.trans ?_ (fits.any (P := fun f => f.name = name) fun _ _ => .rfl)
  simp only [startFound fits, Schema.flags]
  constructor
  · rintro ⟨_, entry, there, same, -⟩
    exact ⟨entry.1, List.mem_map_of_mem there, same⟩
  · rintro ⟨f, mem, same⟩
    obtain ⟨entry, there, rfl⟩ := List.mem_map.mp mem
    exact ⟨_, entry, there, same, rfl⟩

theorem startDefaults {f : Flag} (mem : f ∈ defs) {state : FlagState}
    (first : (ArgumentScan.start schema).flags.get? f.name = some state) : f.Defaults state.value := by
  obtain ⟨entry, there, same, rfl⟩ := (startFound fits).mp first
  have settles := fits.declaration mem (List.mem_map_of_mem there) same
  exact settles.defaults.mp (fits.initial entry there)

variable {taken : Settings} (plain : List Text)

theorem outcomeGiven {name : Text} :
    name ∈ (outcome (.start schema) taken plain).given ↔ ∃ t ∈ taken, t.1.name = name := by
  rw [givenIff (outcomeSorted schema taken plain), Arguments.isGiven, outcome, recordAllFound]
  cases last : lastSet? taken name with
  | some value =>
    obtain ⟨t, mem, same, -⟩ := lastSetSome last
    exact iff_of_true rfl ⟨t, mem, same⟩
  | none =>
    refine iff_of_false (fun on => ?_) (by simpa using lastSetNone.mp last)
    cases first : (ArgumentScan.start schema).flags.get? name with
    | none => simp [first] at on
    | some state =>
      obtain ⟨entry, -, -, rfl⟩ := (startFound fits).mp first
      simp [first] at on

theorem outcomeKeys (listed : ∀ t ∈ taken, t.1 ∈ schema.flags) {name : Text} :
    name ∈ (outcome (.start schema) taken plain).flags.keys ↔ ∃ f ∈ defs, f.name = name := by
  rw [Dict.keyFound, Dict.contains, outcome, recordAllFound, Option.isSome_or, Bool.or_eq_true,
    Option.isSome_iff_exists, Option.isSome_iff_exists, startDeclared fits]
  refine or_iff_right_of_imp ?_
  rintro ⟨state, set⟩
  obtain ⟨value, last, -⟩ := Option.map_eq_some_iff.mp set
  obtain ⟨t, mem, same, -⟩ := lastSetSome last
  exact (fits.any (P := fun f => f.name = name) fun _ _ => .rfl).mp ⟨t.1, listed t mem, same⟩

theorem outcomeLeaves (listed : ∀ t ∈ taken, t.1 ∈ schema.flags) :
    Leaves defs taken plain (outcome (.start schema) taken plain) where
  sorted := outcomeSorted schema taken plain
  keys _ := outcomeKeys fits plain listed
  given _ := outcomeGiven fits plain
  set name value last := by simp [Arguments.value?, outcome, recordAllFound, last]
  unset f mem absent := by
    have last : lastSet? taken f.name = none :=
      lastSetNone.mpr fun t set same => absent ((outcomeGiven fits plain).mpr ⟨t, set, same⟩)
    obtain ⟨state, first⟩ := (startDeclared fits).mpr ⟨f, mem, rfl⟩
    simp only [Arguments.value?, outcome, recordAllFound, last, first]
    exact startDefaults fits mem first
  positionals := rfl

end Outcomes
end ConsoleShell.FlagGrammar
