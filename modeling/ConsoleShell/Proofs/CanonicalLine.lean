import ConsoleShell.Proofs.FlagParsing

/-! Lines that are written out from the flags they set, each with its value, and behind two dashes
the positional arguments. Such a line parses back, and the order of its flags is of no account. -/
namespace ConsoleShell.CanonicalLine
open FlagGrammar FlagParsing

inductive Constructed : Flag → Prop where
  | ofKind (kind name) : Constructed (.ofKind kind name)
  | withAlias {f} (before : Constructed f) (other) : Constructed (f.withAlias other)
  | withDefault {f} (before : Constructed f) (value) : Constructed (f.withDefault value)
  | required {f} (before : Constructed f) : Constructed { f with required := true }
  | withChoices {f} (before : Constructed f) (allowed) : Constructed (f.withChoices allowed)
  | withConflict {f} (before : Constructed f) (rival) : Constructed (f.withConflict rival)
  | exclusive {f} (before : Constructed f) : Constructed { f with exclusive := true }
  | hidden {f} (before : Constructed f) : Constructed { f with hidden := true }
  | describedAs {f} (before : Constructed f) (text) : Constructed (f.describedAs text)

structure Given (defs : List Flag) where
  flag : Flag
  typed : Text := []
  value : FlagValue
  declared : flag ∈ defs
  casts : if flag.kind = .boolean then value = .boolean true else flag.cast typed = .ok value

namespace Given

variable {defs : List Flag}

def name (g : Given defs) : Text := g.flag.name

def word (g : Given defs) : Text :=
  if g.flag.kind = .boolean then '-' :: '-' :: g.name else '-' :: '-' :: (g.name ++ '=' :: g.typed)

end Given

def canonical {defs : List Flag} (given : List (Given defs)) (plain : List Text) : List Text :=
  given.map Given.word ++ ['-', '-'] :: plain

structure Returned {defs : List Flag} (given : List (Given defs)) (plain : List Text) (a : Arguments) :
    Prop where
  present : ∀ name, name ∈ a.given ↔ ∃ g ∈ given, g.name = name
  last : ∀ before g after, given = before ++ g :: after → (∀ later ∈ after, later.flag ≠ g.flag) →
    a.value? g.name = some g.value
  others : ∀ f ∈ defs, (∀ g ∈ given, g.flag ≠ f) → f.Defaults (a.value? f.name)
  keys : ∀ name, name ∈ a.flags.keys ↔ ∃ f ∈ defs, f.name = name
  positionals : a.positionals = plain.map Markup.escape

theorem undashed (name : Text) : Flag.dropDashes (Flag.dropDashes name) = Flag.dropDashes name := by
  unfold Flag.dropDashes
  induction name with
  | nil => rfl
  | cons c rest ih =>
    by_cases dash : c = '-'
    · simpa [dash] using ih
    · simp [dash]

theorem constructedUndashed {f : Flag} (made : Constructed f) :
    ∀ name ∈ f.names, Flag.dropDashes name = name := by
  induction made with
  | ofKind kind name => exact List.forall_mem_singleton.mpr (undashed name)
  | withAlias before other ih =>
    obtain ⟨own, aliases⟩ := List.forall_mem_cons.mp ih
    exact List.forall_mem_cons.mpr ⟨own, eachAdded aliases (undashed other)⟩
  | withDefault _ _ ih => exact ih
  | required _ ih => exact ih
  | withChoices _ _ ih => exact ih
  | withConflict _ _ ih => exact ih
  | exclusive _ ih => exact ih
  | hidden _ ih => exact ih
  | describedAs _ _ ih => exact ih

section Lines

variable {defs : List Flag} {schema : Schema}

structure Spelled (defs : List Flag) : Prop where
  constructed : ∀ f ∈ defs, Constructed f
  named : ∀ f ∈ defs, f.name ≠ []
  plain : ∀ f ∈ defs, '=' ∉ f.name

def setting (schema : Schema) (g : Given defs) : Flag × FlagValue :=
  ((schema.resolve? g.name).getD g.flag, g.value)

theorem resolved (fits : schema.Fits defs) (spelled : Spelled defs) (g : Given defs) :
    schema.resolve? g.name = some (setting schema g).1 ∧ Schema.Settles defs g.flag (setting schema g).1 := by
  obtain ⟨f, listed, settles⟩ := fits.settles g.flag g.declared
  have found : schema.resolve? g.name = some f := by
    unfold Schema.resolve?
    rw [Given.name, constructedUndashed (spelled.constructed _ g.declared) _ (Schema.ownName g.flag),
      ← settles.name]
    exact Schema.foundFlag fits.settledDistinct listed (Schema.ownName f)
  rw [setting, found]
  exact ⟨rfl, settles⟩

theorem wordSets (fits : schema.Fits defs) (spelled : Spelled defs) (g : Given defs) :
    Sets schema g.word [setting schema g] := by
  obtain ⟨found, settles⟩ := resolved fits spelled g
  have kind : (setting schema g).1.kind = g.flag.kind := by rw [settles.same]
  have casts := g.casts
  unfold Given.word
  split
  · rename_i switch
    rw [if_pos switch] at casts
    have long := Sets.long (spelled.named _ g.declared) (spelled.plain _ g.declared) found (kind.trans switch)
    rw [← casts] at long
    exact long
  · rename_i valued
    rw [if_neg valued, ← settles.cast] at casts
    exact .inline (spelled.plain _ g.declared) found (kind ▸ valued) casts

theorem canonicalReads (fits : schema.Fits defs) (spelled : Spelled defs) (given : List (Given defs))
    (plain : List Text) :
    Reads schema (canonical given plain) (given.map (setting schema)) plain := by
  induction given with
  | nil => exact .dashes plain
  | cons g rest ih => exact .sets (wordSets fits spelled g) ih

/- Only the presence of flags and the number of positional arguments are looked at. -/
theorem obeysAlike {declared : List Positional} {present others positionals words : List Text}
    (obeys : Obeys defs declared present positionals) (same : ∀ name, name ∈ others ↔ name ∈ present)
    (many : words.length = positionals.length) : Obeys defs declared others words := by
  have empty : words = [] ↔ positionals = [] := by
    rw [← List.length_eq_zero_iff, ← List.length_eq_zero_iff, many]
  obtain ⟨required, rivals, alone, complete⟩ := obeys
  simp only [← same, ← many, ← empty] at required rivals alone complete
  exact ⟨required, rivals, alone, complete⟩

theorem canonicalScans (fits : schema.Fits defs) (spelled : Spelled defs) (given : List (Given defs))
    (plain : List Text) : scan schema (.start schema) (canonical given plain) =
      .ok (outcome (.start schema) (given.map (setting schema)) plain) :=
  readScan (canonicalReads fits spelled given plain) (startReady schema)

theorem settingName (fits : schema.Fits defs) (spelled : Spelled defs) (g : Given defs) :
    (setting schema g).1.name = g.name :=
  (resolved fits spelled g).2.name

theorem sameGiven (fits : schema.Fits defs) {g h : Given defs} (same : g.name = h.name) :
    g.flag = h.flag :=
  Schema.sameByName fits.distinct g.declared h.declared same

theorem returned (fits : schema.Fits defs) (spelled : Spelled defs) (given : List (Given defs))
    (plain : List Text) :
    Returned given plain (outcome (.start schema) (given.map (setting schema)) plain) := by
  have listed : ∀ t ∈ given.map (setting schema), t.1 ∈ schema.flags := by
    refine List.forall_mem_map.mpr fun g _ => ?_
    exact resolveListed (resolved fits spelled g).1
  have leaves := outcomeLeaves fits plain listed
  have name (g : Given defs) := settingName fits spelled g
  have present (wanted : Text) :
      wanted ∈ (outcome (.start schema) (given.map (setting schema)) plain).given ↔
        ∃ g ∈ given, g.name = wanted := by
    refine (leaves.given wanted).trans ⟨?_, ?_⟩
    · rintro ⟨t, mem, same⟩
      obtain ⟨g, there, rfl⟩ := List.mem_map.mp mem
      exact ⟨g, there, name g ▸ same⟩
    · rintro ⟨g, there, same⟩
      exact ⟨_, List.mem_map_of_mem there, name g ▸ same⟩
  refine ⟨present, fun before g after split behind => ?_, fun f mem absent => ?_, leaves.keys,
    leaves.positionals⟩
  · refine leaves.set _ _ ?_
    rw [split, List.map_append, List.map_cons, ← name g]
    refine lastSetAt fun t later same => ?_
    obtain ⟨h, there, rfl⟩ := List.mem_map.mp later
    exact behind h there (sameGiven fits (name h ▸ name g ▸ same))
  · refine leaves.unset f mem fun here => ?_
    obtain ⟨g, there, same⟩ := (present f.name).mp here
    exact absent g there (Schema.sameByName fits.distinct g.declared mem same)

theorem lastSetOnce {taken : Settings} (once : (taken.map fun t => t.1.name).Nodup) {name : Text}
    {value : FlagValue} :
    lastSet? taken name = some value ↔ ∃ t ∈ taken, t.1.name = name ∧ t.2 = value := by
  refine ⟨lastSetSome, ?_⟩
  rintro ⟨t, mem, rfl, rfl⟩
  obtain ⟨before, later, rfl⟩ := List.append_of_mem mem
  refine lastSetAt fun other there same => ?_
  rw [List.map_append, List.map_cons, List.nodup_append] at once
  have fresh := (List.nodup_cons.mp once.2.1).1
  exact fresh (List.mem_map.mpr ⟨other, there, same⟩)

theorem outcomeReordered {taken other : Settings} (once : (taken.map fun t => t.1.name).Nodup)
    (same : taken.Perm other) (plain : List Text) :
    outcome (.start schema) taken plain = outcome (.start schema) other plain := by
  have last (name : Text) : lastSet? taken name = lastSet? other name := by
    refine Option.ext fun value => ?_
    rw [lastSetOnce once, lastSetOnce ((same.map _).nodup_iff.mp once)]
    simp only [same.mem_iff]
  have flags : (outcome (.start schema) taken plain).flags =
      (outcome (.start schema) other plain).flags := by
    refine Dict.equalSorted textStrict textTrans (outcomeSorted schema taken plain)
      (outcomeSorted schema other plain) fun name => ?_
    simp only [outcome, recordAllFound, last]
  exact congrArg (Arguments.mk · _) flags

end Lines

theorem parsesBack {defs : List Flag} {schema : Schema} (built : Schema.build defs = .ok schema)
    (spelled : Spelled defs) (declared : List Positional) (given : List (Given defs))
    (plain : List Text) :
    (Obeys defs declared (given.map Given.name) plain →
      ∃ a, Arguments.parse schema declared (canonical given plain) = .ok a ∧ Returned given plain a) ∧
    ((given.map Given.flag).Nodup → ∀ other, given.Perm other →
      Arguments.parse schema declared (canonical other plain) =
        Arguments.parse schema declared (canonical given plain)) := by
  have fits := Schema.builtFits built
  constructor
  · intro obeys
    have back := returned fits spelled given plain
    refine ⟨_, (accepted fits).mpr ⟨canonicalScans fits spelled given plain, ?_⟩, back⟩
    refine obeysAlike obeys (fun name => ?_) ?_
    · exact (back.present name).trans List.mem_map.symm
    · rw [back.positionals, List.length_map]
  · intro once other reordered
    have names : ((given.map (setting schema)).map fun t => t.1.name).Nodup := by
      rw [List.map_map]
      refine List.pairwise_map.mpr ((List.pairwise_map.mp once).imp fun different same => ?_)
      refine different (sameGiven fits ?_)
      exact (settingName fits spelled _).symm.trans (same.trans (settingName fits spelled _))
    rw [parseThenCheck, parseThenCheck, canonicalScans fits spelled, canonicalScans fits spelled,
      outcomeReordered names (reordered.map _)]

def tricky : List Flag :=
  [{ Flag.string "name" with required := true }, (Flag.string "--out").withChoices ["a", "b&c"],
    (Flag.boolean "quiet").withConflict "loud", Flag.boolean "loud"]

def said : List (Given tricky) :=
  [{ flag := (Flag.boolean "quiet").withConflict "loud", value := .boolean true,
      declared := by decide, casts := rfl },
    { flag := (Flag.string "--out").withChoices ["a", "b&c"], typed := "b&c",
      value := .text "b&amp;c", declared := by decide, casts := rfl },
    { flag := { Flag.string "name" with required := true }, typed := "-",
      value := .text "-", declared := by decide, casts := rfl }]

def early : Given tricky :=
  { flag := { Flag.string "name" with required := true }, typed := "--loud=1",
    value := .text "--loud=1", declared := by decide, casts := rfl }

theorem trickySpelled : Spelled tricky where
  constructed := by
    refine List.forall_mem_cons.mpr ⟨.required (.ofKind .string "name"), ?_⟩
    refine List.forall_mem_cons.mpr ⟨.withChoices (.ofKind .string "--out") _, ?_⟩
    refine List.forall_mem_cons.mpr ⟨.withConflict (.ofKind .boolean "quiet") "loud", ?_⟩
    exact List.forall_mem_singleton.mpr (.ofKind .boolean "loud")
  named := by decide
  plain := by decide

theorem parsesBackTricky :
    let declared : List Positional := [⟨"file", true, false, none⟩]
    let plain : List Text := ["--", "--loud"]
    ∃ schema, Schema.build tricky = .ok schema ∧
      canonical (early :: said) plain = (["--name=--loud=1", "--quiet", "--out=b&c", "--name=-",
        "--", "--", "--loud"] : List Text) ∧
      (∃ a, Arguments.parse schema declared (canonical (early :: said) plain) = .ok a ∧
        Returned (early :: said) plain a) ∧
      Arguments.parse schema declared (canonical said.reverse plain) =
        Arguments.parse schema declared (canonical said plain) := by
  intro declared plain
  have obeys : Obeys tricky declared ((early :: said).map Given.name) plain := by
    refine ⟨by decide, by decide, by decide, .inr fun n p place _ => ?_⟩
    exact Nat.lt_of_lt_of_le (List.getElem?_eq_some_iff.mp place).1 (by decide)
  exact ⟨_, rfl, by decide, (parsesBack rfl trickySpelled declared (early :: said) plain).1 obeys,
    (parsesBack rfl trickySpelled declared said plain).2 (by decide) _ (List.reverse_perm said).symm⟩

end ConsoleShell.CanonicalLine
