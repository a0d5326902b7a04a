import ConsoleShell.Proofs.FlagOutcome

/-! Parsing takes exactly the lines that can be read and whose flags and positional arguments go
together, and what it makes of them agrees with the declarations. -/
namespace ConsoleShell.FlagParsing
open FlagGrammar

def Admits (f : Flag) : FlagValue → Prop
  | .text value => f.kind = .string ∧ ∃ typed, value = Markup.escape typed ∧
      ∀ allowed, f.choices = some allowed → typed ∈ allowed
  | .number n => f.kind = .number ∧ n.isFinite = true
  | .boolean on => f.kind = .boolean ∧ on = true

/- The flags that are present go together, with each other and with the positional arguments. -/
structure Obeys (defs : List Flag) (declared : List Positional) (present positionals : List Text) :
    Prop where
  required : ∀ f ∈ defs, f.required = true → f.name ∈ present
  rivals : ∀ f ∈ defs, f.name ∈ present → ∀ g ∈ defs, g.name ∈ present →
    ∀ rival ∈ f.conflicts, rival ∉ g.names
  alone : ∀ f ∈ defs, f.exclusive = true → f.name ∈ present → positionals = []
  complete : (∃ f ∈ defs, f.exclusive = true ∧ f.name ∈ present) ∨
    ∀ (n : Nat) (p : Positional), declared[n]? = some p → p.required = true → n < positionals.length

structure WellRead (defs : List Flag) (a : Arguments) : Prop where
  once : a.flags.keys.Nodup
  keys : ∀ name, name ∈ a.flags.keys ↔ ∃ f ∈ defs, f.name = name
  given : ∀ name ∈ a.given, name ∈ a.flags.keys
  absent : ∀ f ∈ defs, f.name ∉ a.given → f.Defaults (a.value? f.name)
  present : ∀ f ∈ defs, f.name ∈ a.given → ∃ value, a.value? f.name = some value ∧ Admits f value

theorem castAdmits {f : Flag} {typed : Text} {value : FlagValue} (kind : f.kind ≠ .boolean)
    (cast : f.cast typed = .ok value) : Admits f value := by
  unfold Flag.cast at cast
  split at cast
  · rename_i isString
    split at cast
    · rename_i free
      cases cast
      exact ⟨isString, typed, rfl, fun allowed limited => nomatch free.symm.trans limited⟩
    · rename_i choices limited
      split at cast
      · rename_i mem
        cases cast
        exact ⟨isString, typed, rfl, fun allowed same => Option.some.inj (limited.symm.trans same) ▸ mem⟩
      · contradiction
  · rename_i isNumber
    split at cast
    · rename_i n read
      cases cast
      exact ⟨isNumber, (Option.filter_eq_some_iff.mp read).2⟩
    · contradiction
  · contradiction

theorem settledAdmits {flags : List Flag} {d f : Flag} (settles : Schema.Settles flags d f)
    {value : FlagValue} : Admits f value ↔ Admits d value := by
  rw [settles.same]
  cases value <;> exact .rfl

section Lines

variable {schema : Schema}

theorem resolveListed {name : Text} {f : Flag} (found : schema.resolve? name = some f) :
    f ∈ schema.flags :=
  (Schema.findFlagSome found).1

def Proper (schema : Schema) (taken : Settings) : Prop :=
  ∀ t ∈ taken, t.1 ∈ schema.flags ∧ Admits t.1 t.2

theorem switchesProper {letters : Text} {flags : List Flag} (switches : Switches schema letters flags) :
    Proper schema (flags.map fun f => (f, .boolean true)) := by
  induction switches with
  | nil => exact fun t mem => nomatch mem
  | cons found kind next ih =>
    exact List.forall_mem_cons.mpr ⟨⟨resolveListed found, kind, rfl⟩, ih⟩

theorem setsProper {word : Text} {taken : Settings} (sets : Sets schema word taken) :
    Proper schema taken := by
  cases sets with
  | long named plain found kind => exact List.forall_mem_singleton.mpr ⟨resolveListed found, kind, rfl⟩
  | inline plain found kind cast =>
    exact List.forall_mem_singleton.mpr ⟨resolveListed found, castAdmits kind cast⟩
  | letters short switches => exact switchesProper switches

theorem opensProper {word : Text} {a : Awaiting} (opens : Opens schema word a) :
    a.flag ∈ schema.flags ∧ a.flag.kind ≠ .boolean := by
  cases opens with
  | long named plain found kind => exact ⟨resolveListed found, kind⟩
  | short short found kind => exact ⟨resolveListed found, kind⟩

theorem readsProper {words : List Text} {taken : Settings} {plain : List Text}
    (reads : Reads schema words taken plain) : Proper schema taken := by
  induction reads with
  | done => exact fun t mem => nomatch mem
  | dashes => exact fun t mem => nomatch mem
  | sets sets next ih => exact List.forall_mem_append.mpr ⟨setsProper sets, ih⟩
  | value opens fits cast next ih =>
    obtain ⟨listed, kind⟩ := opensProper opens
    exact List.forall_mem_cons.mpr ⟨⟨listed, castAdmits kind cast⟩, ih⟩
  | plain isPlain next ih => exact ih

end Lines

section Checks

variable {defs : List Flag} {schema : Schema} {declared : List Positional} {a b : Arguments}

theorem flagRulesKept {flags : List Flag} : a.brokenFlagRule? flags = none ↔
    (∀ f ∈ flags, f.required = true → a.isGiven f.name = true) ∧
    ∀ f ∈ flags, a.isGiven f.name = true → (∀ rival ∈ f.conflicts, ¬ a.isGiven rival = true) ∧
      (f.exclusive = true → a.positionals = []) := by
  unfold Arguments.brokenFlagRule?
  rw [Option.or_eq_none_iff, List.findSome?_eq_none_iff, List.findSome?_eq_none_iff]
  refine and_congr (forall₂_congr fun f _ => by simp) ?_
  simp only [List.mem_filter, and_imp]
  refine forall₂_congr fun f _ => imp_congr_right fun _ => ?_
  cases rival : f.conflicts.find? a.isGiven with
  | some rival =>
    refine iff_of_false (by simp) fun ⟨apart, _⟩ => ?_
    exact apart _ (List.mem_of_find?_eq_some ‹_›) (List.find?_some ‹_›)
  | none =>
    have apart : ∀ rival ∈ f.conflicts, ¬ a.isGiven rival = true := by simpa using rival
    refine Iff.trans ?_ (and_iff_right apart).symm
    simp

theorem positionalsKept {flags : List Flag} : a.missingPositional? flags declared = none ↔
    (∃ f ∈ flags, f.exclusive = true ∧ a.isGiven f.name = true) ∨
    ∀ (n : Nat) (p : Positional), declared[n]? = some p → p.required = true →
      n < a.positionals.length := by
  unfold Arguments.missingPositional?
  by_cases excused : ∃ f ∈ flags, f.exclusive = true ∧ a.isGiven f.name = true
  · rw [if_pos (by simpa using excused)]
    exact iff_of_true rfl (.inl excused)
  · rw [if_neg (by simpa using excused), List.findSome?_eq_none_iff, or_iff_right excused]
    constructor
    · intro complete n p place required
      refine Nat.lt_of_not_le fun behind => ?_
      have mem : p ∈ declared.drop a.positionals.length := by
        refine List.mem_of_getElem? (i := n - a.positionals.length) ?_
        rw [List.getElem?_drop, Nat.add_sub_cancel' behind]
        exact place
      simpa [required] using complete p mem
    · intro enough p mem
      obtain ⟨n, place⟩ := List.mem_iff_getElem?.mp mem
      rw [List.getElem?_drop] at place
      refine if_neg fun required => ?_
      exact absurd (enough _ p place required) (Nat.not_lt.mpr (Nat.le_add_right _ _))

theorem checkOk : Arguments.check schema declared a = .ok b ↔
    a = b ∧ a.brokenFlagRule? schema.flags = none ∧
      a.missingPositional? schema.flags declared = none := by
  unfold Arguments.check
  rw [← Option.or_eq_none_iff]
  cases (a.brokenFlagRule? schema.flags).or (a.missingPositional? schema.flags declared) <;> simp

theorem rivalsApart (fits : schema.Fits defs) (present : Text → Prop) :
    (∀ f ∈ schema.flags, present f.name → ∀ rival ∈ f.conflicts, ¬ present rival) ↔
      ∀ f ∈ defs, present f.name → ∀ g ∈ defs, present g.name → ∀ rival ∈ f.conflicts,
        rival ∉ g.names := by
  constructor
  · intro apart d mem here g other there rival listed named
    obtain ⟨f, mine, settles⟩ := fits.settles d mem
    refine apart f mine (settles.name ▸ here) g.name ?_ there
    exact (settles.rivals _).mpr ⟨rival, listed, g, Schema.foundFlag fits.distinct other named, rfl⟩
  · intro apart f mem here name listed there
    obtain ⟨d, mine, settles⟩ := fits.declared f mem
    obtain ⟨rival, mentioned, g, found, rfl⟩ := (settles.rivals name).mp listed
    obtain ⟨other, named⟩ := Schema.findFlagSome found
    exact apart d mine (settles.name ▸ here) g other there rival mentioned named

theorem checked (fits : schema.Fits defs) (sorted : a.flags.Sorted) :
    Arguments.check schema declared a = .ok b ↔
      a = b ∧ Obeys defs declared a.given a.positionals := by
  have given : ∀ name, a.isGiven name = true ↔ name ∈ a.given := fun _ => (givenIff sorted).symm
  rw [checkOk, flagRulesKept, positionalsKept]
  simp only [given]
  rw [fits.every (P := fun f => f.required = true → f.name ∈ a.given) fun _ _ => .rfl,
    fits.any (P := fun f => f.exclusive = true ∧ f.name ∈ a.given) fun _ _ => .rfl]
  have rivals := rivalsApart fits (· ∈ a.given)
  have alone := fits.every
    (P := fun f => f.exclusive = true → f.name ∈ a.given → a.positionals = []) fun _ _ => .rfl
  refine and_congr_right fun _ => ⟨?_, ?_⟩
  · rintro ⟨⟨required, rules⟩, complete⟩
    refine ⟨required, rivals.mp fun f mem here => (rules f mem here).1, ?_, complete⟩
    exact alone.mp fun f mem exclusive here => (rules f mem here).2 exclusive
  · rintro ⟨required, apart, lonely, complete⟩
    refine ⟨⟨required, fun f mem here => ⟨rivals.mpr apart f mem here, fun exclusive => ?_⟩⟩, complete⟩
    exact alone.mpr lonely f mem exclusive here

end Checks

theorem startReady (schema : Schema) : Ready (.start schema) := ⟨rfl, rfl⟩

theorem parseThenCheck (schema : Schema) (declared : List Positional) (words : List Text) :
    Arguments.parse schema declared words =
      scan schema (.start schema) words >>= Arguments.check schema declared := by
  unfold Arguments.parse scan
  rw [bind_assoc]

theorem accepted {defs : List Flag} {schema : Schema} (fits : schema.Fits defs)
    {declared : List Positional} {words : List Text} {a : Arguments} :
    Arguments.parse schema declared words = .ok a ↔
      scan schema (.start schema) words = .ok a ∧ Obeys defs declared a.given a.positionals := by
  rw [parseThenCheck, bindOk]
  constructor
  · rintro ⟨b, ran, passed⟩
    obtain ⟨taken, plain, -, rfl⟩ := (scanned (startReady schema)).mp ran
    obtain ⟨rfl, obeys⟩ := (checked fits (outcomeSorted schema taken plain)).mp passed
    exact ⟨ran, obeys⟩
  · rintro ⟨ran, obeys⟩
    obtain ⟨taken, plain, -, rfl⟩ := (scanned (startReady schema)).mp ran
    exact ⟨_, ran, (checked fits (outcomeSorted schema taken plain)).mpr ⟨rfl, obeys⟩⟩

theorem outcomeWellRead {defs : List Flag} {schema : Schema} (fits : schema.Fits defs)
    {taken : Settings} (proper : Proper schema taken) (plain : List Text) :
    WellRead defs (outcome (.start schema) taken plain) := by
  have leaves := outcomeLeaves fits plain fun t mem => (proper t mem).1
  refine ⟨Dict.sortedKeys leaves.sorted textStrict, leaves.keys, fun name mem => ?_, leaves.unset,
    fun f mem here => ?_⟩
  · obtain ⟨t, set, same⟩ := (leaves.given name).mp mem
    refine (leaves.keys name).mpr ?_
    exact (fits.any (P := fun f => f.name = name) fun _ _ => .rfl).mp ⟨t.1, (proper t set).1, same⟩
  · cases last : lastSet? taken f.name with
    | none =>
      obtain ⟨t, set, same⟩ := (leaves.given f.name).mp here
      exact absurd same (lastSetNone.mp last t set)
    | some value =>
      obtain ⟨t, set, same, rfl⟩ := lastSetSome last
      obtain ⟨listed, admits⟩ := proper t set
      have settles := fits.declaration mem listed same
      exact ⟨t.2, leaves.set _ _ last, (settledAdmits settles).mp admits⟩

structure Parses (defs : List Flag) (schema : Schema) (declared : List Positional)
    (words : List Text) : Prop where
  scanned : ∀ a, scan schema (.start schema) words = .ok a ↔
    ∃ taken plain, Reads schema words taken plain ∧ a = outcome (.start schema) taken plain
  accepted : ∀ a, Arguments.parse schema declared words = .ok a ↔
    scan schema (.start schema) words = .ok a ∧ Obeys defs declared a.given a.positionals
  wellRead : ∀ a, Arguments.parse schema declared words = .ok a → WellRead defs a

theorem parsesExactly {defs : List Flag} {schema : Schema} (built : Schema.build defs = .ok schema)
    (declared : List Positional) (words : List Text) : Parses defs schema declared words := by
  have fits := Schema.builtFits built
  refine ⟨fun _ => scanned (startReady schema), fun _ => accepted fits, fun a parsed => ?_⟩
  obtain ⟨taken, plain, reads, rfl⟩ := (scanned (startReady schema)).mp ((accepted fits).mp parsed).1
  exact outcomeWellRead fits (readsProper reads) plain

def mixed : List Flag :=
  [{ Flag.string "name" with required := true },
    ((Flag.string "out").withAlias "o").withChoices ["a", "b&c"],
    ((Flag.boolean "quiet").withAlias "q").withConflict "v",
    (Flag.boolean "verbose").withAlias "v"]

theorem parsesExactlyMixed :
    let declared : List Positional := [⟨"file", true, false, none⟩]
    let words : List Text := ["-q", "--out=b&c", "-", "--name", "--", "--", "-v"]
    ∃ schema a, Schema.build mixed = .ok schema ∧ Arguments.parse schema declared words = .ok a ∧
      a.given = (["name", "out", "quiet"] : List Text) ∧ a.positionals = (["-", "-v"] : List Text) ∧
      Parses mixed schema declared words :=
  ⟨_, _, rfl, rfl, by decide, rfl, parsesExactly rfl _ _⟩

end ConsoleShell.FlagParsing
