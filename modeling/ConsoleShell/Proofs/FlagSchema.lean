import ConsoleShell.Flag.Schema
import ConsoleShell.Proofs.Basic

/-! Schemas that were accepted. Every name belongs to one flag, rivals are known by their canonical
names, and a flag that is not given has the value that was declared for it. -/
namespace ConsoleShell

def Flag.Defaults (f : Flag) (value : Option FlagValue) : Prop :=
  match f.default with
  | some typed => ∃ v, f.cast typed = .ok v ∧ value = some v
  | none => value = if f.kind = .boolean then some (.boolean false) else none

namespace Schema

theorem repeatedNone {seen names : List Text} :
    firstRepeated seen names = none ↔ names.Nodup ∧ ∀ name ∈ names, name ∉ seen := by
  induction names generalizing seen with
  | nil => simp [firstRepeated]
  | cons name rest ih =>
    unfold firstRepeated
    by_cases known : name ∈ seen
    · simp [known]
    · rw [if_neg known, ih, List.nodup_cons]
      simp only [List.mem_cons, not_or, forall_eq_or_imp]
      constructor
      · rintro ⟨once, fresh⟩
        exact ⟨⟨fun mem => (fresh name mem).1 rfl, once⟩, known, fun other mem => (fresh other mem).2⟩
      · rintro ⟨⟨absent, once⟩, -, fresh⟩
        exact ⟨once, fun other mem => ⟨fun same => absent (same ▸ mem), fresh other mem⟩⟩

theorem foundFlag {flags : List Flag} (distinct : (flags.flatMap Flag.names).Nodup) {f : Flag}
    (listed : f ∈ flags) {name : Text} (mine : name ∈ f.names) : findFlag? flags name = some f := by
  unfold findFlag?
  induction flags with
  | nil => contradiction
  | cons first rest ih =>
    rw [List.flatMap_cons, List.nodup_append] at distinct
    obtain ⟨-, others, apart⟩ := distinct
    rcases List.mem_cons.mp listed with rfl | later
    · exact List.find?_cons_of_pos (decide_eq_true mine)
    · have foreign : name ∉ first.names := fun theirs =>
        apart name theirs name (List.mem_flatMap.mpr ⟨f, later, mine⟩) rfl
      rw [List.find?_cons_of_neg (by simpa using foreign)]
      exact ih others later

theorem findFlagSome {flags : List Flag} {name : Text} {f : Flag}
    (found : findFlag? flags name = some f) : f ∈ flags ∧ name ∈ f.names :=
  ⟨List.mem_of_find?_eq_some found,
    of_decide_eq_true (List.find?_some (p := fun f : Flag => decide (name ∈ f.names)) found)⟩

theorem sameFlag {flags : List Flag} (distinct : (flags.flatMap Flag.names).Nodup) {f g : Flag}
    (left : f ∈ flags) (right : g ∈ flags) {name : Text} (mine : name ∈ f.names)
    (theirs : name ∈ g.names) : f = g :=
  Option.some.inj ((foundFlag distinct left mine).symm.trans (foundFlag distinct right theirs))

theorem ownName (f : Flag) : f.name ∈ f.names := List.mem_cons_self

theorem sameByName {flags : List Flag} (distinct : (flags.flatMap Flag.names).Nodup) {f g : Flag}
    (left : f ∈ flags) (right : g ∈ flags) (same : f.name = g.name) : f = g :=
  sameFlag distinct left right (ownName f) (same ▸ ownName g)

theorem ownNames {flags : List Flag} (distinct : (flags.flatMap Flag.names).Nodup) :
    (flags.map Flag.name).Nodup := by
  refine distinct.sublist ?_
  clear distinct
  induction flags with
  | nil => exact .slnil
  | cons f rest ih => exact .cons_cons f.name (ih.trans (List.sublist_append_right f.aliases _))

structure Settles (flags : List Flag) (d f : Flag) : Prop where
  same : f = { d with conflicts := f.conflicts }
  choices : d.choices.isSome = true → d.kind = .string
  rivals : ∀ name, name ∈ f.conflicts ↔
    ∃ other ∈ d.conflicts, ∃ rival, findFlag? flags other = some rival ∧ rival.name = name
  known : ∀ other ∈ d.conflicts, ∃ rival, findFlag? flags other = some rival

theorem Settles.name {flags : List Flag} {d f : Flag} (settles : Settles flags d f) :
    f.name = d.name := by
  rw [settles.same]

theorem Settles.cast {flags : List Flag} {d f : Flag} (settles : Settles flags d f) (typed : Text) :
    f.cast typed = d.cast typed := by
  rw [settles.same]
  rfl

theorem Settles.defaults {flags : List Flag} {d f : Flag} (settles : Settles flags d f)
    {value : Option FlagValue} : f.Defaults value ↔ d.Defaults value := by
  rw [settles.same]
  exact .rfl

def rename (flags : List Flag) (flag other : Text) : Except SchemaError Text :=
  match findFlag? flags other with
  | some rival => .ok rival.name
  | none => .error (.unknownConflict flag other)

theorem renamedOk {flags : List Flag} {flag other name : Text} :
    rename flags flag other = .ok name ↔ ∃ rival, findFlag? flags other = some rival ∧ rival.name = name := by
  unfold rename
  cases findFlag? flags other <;> simp

/- Only string flags are settled with choices, and of a flag nothing but its rivals changes. -/
theorem settleOk {flags : List Flag} {d f : Flag} : settleConflicts flags d = .ok f ↔
    (∀ allowed, d.choices = some allowed → d.kind = .string) ∧
      ∃ names, d.conflicts.mapM (rename flags d.name) = .ok names ∧ f = { d with conflicts := names } := by
  have free : (d.choices.isSome && d.kind != .string) = false ↔
      ∀ allowed, d.choices = some allowed → d.kind = .string := by
    cases d.choices <;> simp
  rw [← free]
  unfold settleConflicts
  dsimp only
  cases d.choices.isSome && d.kind != .string with
  | true =>
    constructor
    · intro settles
      contradiction
    · rintro ⟨free, -⟩
      contradiction
  | false =>
    constructor
    · intro settles
      obtain ⟨names, renamed, same⟩ := bindOk.mp settles
      cases same
      exact ⟨rfl, names, renamed, rfl⟩
    · rintro ⟨-, names, renamed, rfl⟩
      exact bindOk.mpr ⟨names, renamed, rfl⟩

theorem settled {flags : List Flag} {d f : Flag} (settles : settleConflicts flags d = .ok f) :
    Settles flags d f := by
  obtain ⟨strings, names, renamed, rfl⟩ := settleOk.mp settles
  refine ⟨rfl, fun limited => ?_, fun name => ⟨fun mem => ?_, ?_⟩, fun other mem => ?_⟩
  · obtain ⟨allowed, stated⟩ := Option.isSome_iff_exists.mp limited
    exact strings allowed stated
  · obtain ⟨other, listed, made⟩ := mappedFrom renamed mem
    exact ⟨other, listed, renamedOk.mp made⟩
  · rintro ⟨other, listed, rival, found, rfl⟩
    obtain ⟨name, there, made⟩ := mappedTo renamed listed
    obtain ⟨same, known, rfl⟩ := renamedOk.mp made
    cases known.symm.trans found
    exact there
  · obtain ⟨name, there, made⟩ := mappedTo renamed mem
    obtain ⟨rival, found, -⟩ := renamedOk.mp made
    exact ⟨rival, found⟩

structure Fits (schema : Schema) (defs : List Flag) : Prop where
  distinct : (defs.flatMap Flag.names).Nodup
  names : schema.flags.map Flag.names = defs.map Flag.names
  settles : ∀ d ∈ defs, ∃ f ∈ schema.flags, Settles defs d f
  declared : ∀ f ∈ schema.flags, ∃ d ∈ defs, Settles defs d f
  initial : ∀ entry ∈ schema.entries, entry.1.Defaults entry.2

theorem Fits.settledDistinct {defs : List Flag} {schema : Schema} (fits : schema.Fits defs) :
    (schema.flags.flatMap Flag.names).Nodup := by
  rw [List.flatMap_def, fits.names, ← List.flatMap_def]
  exact fits.distinct

theorem Fits.declaration {defs : List Flag} {schema : Schema} (fits : schema.Fits defs) {d f : Flag}
    (mem : d ∈ defs) (listed : f ∈ schema.flags) (same : f.name = d.name) : Settles defs d f := by
  obtain ⟨other, there, settles⟩ := fits.declared f listed
  exact sameByName fits.distinct there mem (settles.name ▸ same) ▸ settles

theorem Fits.every {defs : List Flag} {schema : Schema} (fits : schema.Fits defs) {P : Flag → Prop}
    (blind : ∀ f conflicts, P { f with conflicts } ↔ P f) :
    (∀ f ∈ schema.flags, P f) ↔ ∀ d ∈ defs, P d := by
  constructor
  · intro each d mem
    obtain ⟨f, there, settles⟩ := fits.settles d mem
    exact (blind d f.conflicts).mp (settles.same ▸ each f there)
  · intro each f mem
    obtain ⟨d, there, settles⟩ := fits.declared f mem
    exact settles.same ▸ (blind d f.conflicts).mpr (each d there)

theorem Fits.any {defs : List Flag} {schema : Schema} (fits : schema.Fits defs) {P : Flag → Prop}
    (blind : ∀ f conflicts, P { f with conflicts } ↔ P f) :
    (∃ f ∈ schema.flags, P f) ↔ ∃ d ∈ defs, P d := by
  constructor
  · rintro ⟨f, mem, holds⟩
    obtain ⟨d, there, settles⟩ := fits.declared f mem
    exact ⟨d, there, (blind d f.conflicts).mp (settles.same ▸ holds)⟩
  · rintro ⟨d, mem, holds⟩
    obtain ⟨f, there, settles⟩ := fits.settles d mem
    exact ⟨f, there, settles.same ▸ (blind d f.conflicts).mpr holds⟩

theorem initialDefaults {f : Flag} {value : Option FlagValue} (made : initialValue f = .ok value) :
    f.Defaults value := by
  unfold initialValue at made
  unfold Flag.Defaults
  cases default : f.default with
  | none =>
    rw [default] at made
    cases made
    rfl
  | some typed =>
    rw [default] at made
    dsimp only at made ⊢
    split at made
    · rename_i v cast
      cases made
      exact ⟨v, cast, rfl⟩
    · contradiction

/- A schema is built in three stages, and each of them can refuse. -/
theorem buildOk {defs : List Flag} {schema : Schema} : build defs = .ok schema ↔
    (defs.flatMap Flag.names).Nodup ∧ ∃ flags values, defs.mapM (settleConflicts defs) = .ok flags ∧
      flags.mapM initialValue = .ok values ∧ schema = ⟨flags.zip values⟩ := by
  unfold build
  cases repeated : firstRepeated [] (defs.flatMap Flag.names) with
  | some name =>
    constructor
    · intro built
      contradiction
    · rintro ⟨distinct, -⟩
      have unrepeated := repeatedNone.mpr ⟨distinct, fun name _ => List.not_mem_nil⟩
      exact nomatch repeated.symm.trans unrepeated
  | none =>
    constructor
    · intro built
      obtain ⟨flags, settle, built⟩ := bindOk.mp built
      obtain ⟨values, initial, built⟩ := bindOk.mp built
      cases built
      exact ⟨(repeatedNone.mp repeated).1, flags, values, settle, initial, rfl⟩
    · rintro ⟨-, flags, values, settle, initial, rfl⟩
      exact bindOk.mpr ⟨flags, settle, bindOk.mpr ⟨values, initial, rfl⟩⟩

theorem zippedFlags {flags : List Flag} {values : List (Option FlagValue)}
    (initial : flags.mapM initialValue = .ok values) : Schema.flags ⟨flags.zip values⟩ = flags :=
  List.map_fst_zip (Nat.le_of_eq (mappedAt initial).1.symm)

theorem builtFits {defs : List Flag} {schema : Schema} (built : build defs = .ok schema) :
    schema.Fits defs := by
  obtain ⟨distinct, flags, values, settle, initial, rfl⟩ := buildOk.mp built
  have listed := zippedFlags initial
  refine ⟨distinct, ?_, fun d mem => ?_, fun f mem => ?_, fun entry mem => ?_⟩
  · rw [listed]
    refine mappedLabels settle fun d f settles => ?_
    rw [(settled settles).same]
    rfl
  · rw [listed]
    obtain ⟨f, there, settles⟩ := mappedTo settle mem
    exact ⟨f, there, settled settles⟩
  · rw [listed] at mem
    obtain ⟨d, there, settles⟩ := mappedFrom settle mem
    exact ⟨d, there, settled settles⟩
  · obtain ⟨n, place⟩ := List.mem_iff_getElem?.mp mem
    obtain ⟨left, right⟩ := List.getElem?_zip_eq_some.mp place
    exact initialDefaults ((mappedAt initial).2 n _ _ left right)

end Schema
end ConsoleShell
