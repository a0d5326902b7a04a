import ConsoleShell.Command.Registry
import ConsoleShell.Proofs.Arguments
import ConsoleShell.Proofs.CanonicalLine

/-! Commands as they are declared. Flags make a schema exactly when their declarations agree with each other;
the schema has each of them in its place and finds it under its names and under nothing else. A declaration
that is refused leaves the registry as it was, whatever was declared before it. -/
namespace ConsoleShell.DeclaredCommands
open Schema
open CanonicalLine (Constructed constructedUndashed)

def Takes (f : Flag) (typed : Text) : Prop :=
  match f.kind with
  | .string => ∀ allowed, f.choices = some allowed → typed ∈ allowed
  | .number => ∃ n, Double.read? (Text.trim typed) = some n ∧ n.isFinite = true
  | .boolean => True

structure Consistent (defs : List Flag) : Prop where
  distinct : (defs.flatMap Flag.names).Nodup
  choices : ∀ f ∈ defs, ∀ allowed, f.choices = some allowed → f.kind = .string
  rivals : ∀ f ∈ defs, ∀ rival ∈ f.conflicts, ∃ g ∈ defs, rival ∈ g.names
  defaults : ∀ f ∈ defs, ∀ typed, f.default = some typed → Takes f typed

def canonical (defs : List Flag) (f : Flag) : Flag :=
  { f with conflicts := f.conflicts.filterMap fun rival => (findFlag? defs rival).map Flag.name }

structure Describes (schema : Schema) (defs : List Flag) : Prop where
  flags : schema.flags = defs.map (canonical defs)
  rivals : ∀ f ∈ schema.flags, ∀ rival ∈ f.conflicts, ∃ g ∈ schema.flags, g.name = rival
  found : ∀ key f, schema.resolve? key = some f ↔
    f ∈ schema.flags ∧ Flag.dropDashes key ∈ f.names
  dashed : (∀ f ∈ defs, Constructed f) → ∀ f ∈ schema.flags, ∀ name ∈ f.names, ∀ many,
    schema.resolve? (List.replicate many '-' ++ name) = some f

theorem castTakes (f : Flag) (typed : Text) : (∃ value, f.cast typed = .ok value) ↔ Takes f typed := by
  unfold Flag.cast Takes
  cases f.kind with
  | string =>
    cases f.choices with
    | none => simp
    | some allowed => by_cases listed : typed ∈ allowed <;> simp [listed]
  | number =>
    simp only [← Option.filter_eq_some_iff]
    cases (Double.read? (Text.trim typed)).filter Double.isFinite <;> simp
  | boolean => simp

theorem initialTakes (f : Flag) : (∃ value, initialValue f = .ok value) ↔
    ∀ typed, f.default = some typed → Takes f typed := by
  unfold initialValue
  cases f.default with
  | none => simp
  | some typed =>
    simp only [Option.some.injEq, forall_eq', ← castTakes]
    cases f.cast typed <;> simp

theorem findFlagIff {flags : List Flag} {name : Text} :
    (∃ f, findFlag? flags name = some f) ↔ ∃ f ∈ flags, name ∈ f.names := by
  unfold findFlag?
  rw [← Option.isSome_iff_exists, List.find?_isSome]
  simp

theorem settlesIff {defs : List Flag} {f : Flag} : (∃ g, settleConflicts defs f = .ok g) ↔
    (∀ allowed, f.choices = some allowed → f.kind = .string) ∧
      ∀ rival ∈ f.conflicts, ∃ g ∈ defs, rival ∈ g.names := by
  simp only [settleOk]
  constructor
  · rintro ⟨g, strings, names, renamed, -⟩
    refine ⟨strings, fun rival mem => ?_⟩
    obtain ⟨name, made⟩ := mapsEach.mp ⟨names, renamed⟩ rival mem
    obtain ⟨g, found, -⟩ := renamedOk.mp made
    exact findFlagIff.mp ⟨g, found⟩
  · rintro ⟨strings, known⟩
    have each : ∀ rival ∈ f.conflicts, ∃ name, rename defs f.name rival = .ok name := by
      intro rival mem
      obtain ⟨g, found⟩ := findFlagIff.mpr (known rival mem)
      exact ⟨g.name, renamedOk.mpr ⟨g, found, rfl⟩⟩
    obtain ⟨names, renamed⟩ := mapsEach.mpr each
    exact ⟨_, strings, names, renamed, rfl⟩

theorem settledCanonical {defs : List Flag} {f g : Flag} (settles : settleConflicts defs f = .ok g) :
    g = canonical defs f := by
  obtain ⟨-, names, renamed, rfl⟩ := settleOk.mp settles
  have each : names.map some =
      f.conflicts.map fun rival => (findFlag? defs rival).map Flag.name :=
    mappedLabels renamed fun rival name made =>
      (Option.map_eq_some_iff.mpr (renamedOk.mp made)).symm
  have same : names =
      f.conflicts.filterMap fun rival => (findFlag? defs rival).map Flag.name := by
    have kept := congrArg (List.filterMap id) each
    simpa [List.filterMap_map] using kept
  rw [same]
  rfl

theorem settledFlags {defs flags : List Flag} (settle : defs.mapM (settleConflicts defs) = .ok flags) :
    flags = defs.map (canonical defs) := by
  have each := mappedLabels settle fun f g settles => settledCanonical settles
  rwa [List.map_id'] at each

theorem buildsConsistent {defs : List Flag} : (∃ schema, build defs = .ok schema) ↔ Consistent defs := by
  constructor
  · rintro ⟨schema, built⟩
    obtain ⟨distinct, flags, values, settle, initial, -⟩ := buildOk.mp built
    have settles := mapsEach.mp ⟨flags, settle⟩
    have values := mapsEach.mp ⟨values, initial⟩
    rw [settledFlags settle] at values
    refine ⟨distinct, fun f mem => (settlesIff.mp (settles f mem)).1,
      fun f mem => (settlesIff.mp (settles f mem)).2, fun f mem => ?_⟩
    have takes := (initialTakes _).mp (values (canonical defs f) (List.mem_map_of_mem mem))
    exact takes
  · rintro ⟨distinct, choices, rivals, defaults⟩
    obtain ⟨flags, settle⟩ := mapsEach.mpr fun f mem => settlesIff.mpr ⟨choices f mem, rivals f mem⟩
    obtain ⟨values, initial⟩ : ∃ values, flags.mapM initialValue = .ok values := by
      refine mapsEach.mpr fun g mem => ?_
      rw [settledFlags settle] at mem
      obtain ⟨f, listed, rfl⟩ := List.mem_map.mp mem
      exact (initialTakes _).mpr (defaults f listed)
    exact ⟨_, buildOk.mpr ⟨distinct, flags, values, settle, initial, rfl⟩⟩

section Built

variable {defs : List Flag} {schema : Schema}

theorem builtFlags (built : build defs = .ok schema) : schema.flags = defs.map (canonical defs) := by
  obtain ⟨-, flags, values, settle, initial, rfl⟩ := buildOk.mp built
  rw [zippedFlags initial, settledFlags settle]

theorem rivalsKnown (built : build defs = .ok schema) {f : Flag} (listed : f ∈ schema.flags) {rival : Text}
    (declared : rival ∈ f.conflicts) : ∃ g ∈ schema.flags, g.name = rival := by
  rw [builtFlags built] at listed ⊢
  obtain ⟨d, -, rfl⟩ := List.mem_map.mp listed
  obtain ⟨other, -, found⟩ := List.mem_filterMap.mp declared
  obtain ⟨g, known, rfl⟩ := Option.map_eq_some_iff.mp found
  exact ⟨canonical defs g, List.mem_map_of_mem (findFlagSome known).1, rfl⟩

theorem foundByName (built : build defs = .ok schema) (key : Text) (f : Flag) :
    schema.resolve? key = some f ↔ f ∈ schema.flags ∧ Flag.dropDashes key ∈ f.names :=
  ⟨findFlagSome, fun ⟨listed, mine⟩ => foundFlag (builtFits built).settledDistinct listed mine⟩

theorem dashesDropped (many : Nat) (name : Text) :
    Flag.dropDashes (List.replicate many '-' ++ name) = Flag.dropDashes name := by
  unfold Flag.dropDashes
  refine List.dropWhile_append_of_pos fun c mem => ?_
  exact decide_eq_true (List.eq_of_mem_replicate mem)

/- Flags that were constructed have no name that begins with a dash, and so each of their names is found. -/
theorem foundDashed (built : build defs = .ok schema) (constructed : ∀ f ∈ defs, Constructed f) {f : Flag}
    (listed : f ∈ schema.flags) {name : Text} (mine : name ∈ f.names) (many : Nat) :
    schema.resolve? (List.replicate many '-' ++ name) = some f := by
  refine (foundByName built _ f).mpr ⟨listed, ?_⟩
  rw [builtFlags built] at listed
  obtain ⟨d, declared, rfl⟩ := List.mem_map.mp listed
  rwa [dashesDropped, constructedUndashed (constructed d declared) name mine]

theorem builtDescribes (built : build defs = .ok schema) : Describes schema defs where
  flags := builtFlags built
  rivals _ listed _ declared := rivalsKnown built listed declared
  found := foundByName built
  dashed constructed _ listed _ mine many := foundDashed built constructed listed mine many

end Built

variable {ρ : Type}

/- A registration carried out on a registry that outlives its failure: what is written before the failure
stays written. -/
def registering (d : CommandDeclaration ρ) : ExceptT SchemaError (StateM (Registry ρ)) Bool := do
  let command ← MonadExcept.ofExcept (Command.ofDeclaration d)
  let before ← get
  set { before with commands := before.commands.insert command.name command }
  return before.commands.contains command.name

theorem registeringSame (d : CommandDeclaration ρ) (r : Registry ρ) :
    (registering d).run.run r = match r.register d with
      | .ok (replaced, after) => (.ok replaced, after)
      | .error error => (.error error, r) := by
  unfold registering Registry.register
  cases Command.ofDeclaration d <;> rfl

structure Registers (r : Registry ρ) (d : CommandDeclaration ρ) (outcome : Except SchemaError Bool)
    (after : Registry ρ) : Prop where
  fails : ∀ error, outcome = .error error ↔ ∃ flags, d.flags = some flags ∧ build flags = .error error
  kept : ∀ error, outcome = .error error → after = r
  replaced : ∀ before, outcome = .ok before → before = (r.command? d.name).isSome
  made : ∀ before, outcome = .ok before → ∃ c, Command.ofDeclaration d = .ok c ∧
    ∀ name, after.command? name = if name = d.name then some c else r.command? name
  aliases : after.aliases = r.aliases

theorem refusedFlags {d : CommandDeclaration ρ} {error : SchemaError} :
    Command.ofDeclaration d = .error error ↔ ∃ flags, d.flags = some flags ∧ build flags = .error error := by
  unfold Command.ofDeclaration
  cases d.flags with
  | none => simp
  | some flags =>
    dsimp only
    cases built : build flags <;> simp [bind, Except.bind, pure, Except.pure, built]

theorem registered (r : Registry ρ) (d : CommandDeclaration ρ) :
    Registers r d ((registering d).run.run r).1 ((registering d).run.run r).2 := by
  rw [registeringSame]
  unfold Registry.register
  cases made : Command.ofDeclaration d with
  | error error =>
    refine ⟨fun other => ?_, fun _ _ => rfl, fun _ ok => (nomatch ok), fun _ ok => (nomatch ok), rfl⟩
    rw [← refusedFlags, made]
    simp [bind, Except.bind]
  | ok c =>
    have name := (Arguments.builtAs made).1
    refine ⟨fun other => ?_, fun _ failed => (nomatch failed), fun before ok => ?_, fun before ok => ?_, rfl⟩
    · rw [← refusedFlags, made]
      simp [bind, Except.bind, pure, Except.pure]
    · cases ok
      rw [name]
      rfl
    · refine ⟨c, made, fun other => ?_⟩
      rw [← name]
      exact Dict.getInsert _ _ _ _

def registerEach : List (CommandDeclaration ρ) → Registry ρ → List (Except SchemaError Bool) × Registry ρ
  | [], r => ([], r)
  | d :: rest, r =>
    let (outcome, next) := (registering d).run.run r
    let (outcomes, last) := registerEach rest next
    (outcome :: outcomes, last)

def brought (name : Text) (d : CommandDeclaration ρ) : Option (Command ρ) :=
  if d.name = name then (Command.ofDeclaration d).toOption else none

theorem registeredFound (r : Registry ρ) (d : CommandDeclaration ρ) (name : Text) :
    ((registering d).run.run r).2.command? name = (brought name d).or (r.command? name) := by
  obtain ⟨fails, kept, -, made, -⟩ := registered r d
  cases outcome : ((registering d).run.run r).1 with
  | error error =>
    have refused := refusedFlags.mpr ((fails error).mp outcome)
    rw [kept error outcome]
    simp [brought, refused, Except.toOption]
  | ok before =>
    obtain ⟨c, built, found⟩ := made before outcome
    rw [found, brought, built]
    by_cases same : name = d.name
    · simp [same, Except.toOption]
    · simp [same, Ne.symm same]

theorem registeredEach (ds : List (CommandDeclaration ρ)) (r : Registry ρ) (name : Text) :
    (registerEach ds r).2.command? name = (ds.reverse.findSome? (brought name)).or (r.command? name) := by
  induction ds generalizing r with
  | nil => rfl
  | cons d rest ih =>
    have step : (registerEach (d :: rest) r).2 = (registerEach rest ((registering d).run.run r).2).2 := rfl
    have last : [d].findSome? (brought name) = brought name d := by simp
    rw [step, ih, registeredFound, List.reverse_cons, List.findSome?_append, last, Option.or_assoc]

theorem declaresExactly (defs : List Flag) (r : Registry ρ) (ds : List (CommandDeclaration ρ)) :
    ((∃ schema, build defs = .ok schema) ↔ Consistent defs) ∧
      (∀ schema, build defs = .ok schema → Describes schema defs) ∧
      (∀ d, Registers r d ((registering d).run.run r).1 ((registering d).run.run r).2) ∧
      ∀ name, (registerEach ds r).2.command? name =
        (ds.reverse.findSome? (brought name)).or (r.command? name) :=
  ⟨buildsConsistent, fun _ built => builtDescribes built, registered r, registeredEach ds r⟩

def lamp : List Flag := [
  (Flag.string "--tone").withAlias "-t" |>.withChoices ["warm", "cold"] |>.withDefault "cold"
    |>.withConflict "-o",
  (Flag.boolean "off").withAlias "o",
  (Flag.number "level").withDefault " 2e1 "]

def blinking : List Flag := lamp ++ [Flag.boolean "-t"]

def lampSchema : Schema := (build lamp).toOption.getD .empty

theorem lampBuilt : build lamp = .ok lampSchema := by
  have fine : (build lamp).toOption.isSome = true := by decide +kernel
  unfold lampSchema
  cases made : build lamp with
  | error error =>
    rw [made] at fine
    contradiction
  | ok schema => rfl

def turns (flags : List Flag) (handler : Nat) : CommandDeclaration Nat :=
  { name := "lamp", flags := some flags, handler }

theorem declaresExactlyLamp : Consistent lamp ∧ ¬ Consistent blinking ∧
    (build lamp = .ok lampSchema ∧ Describes lampSchema lamp ∧
      (lampSchema.resolve? "---t").map Flag.conflicts = some ["off".toList]) ∧
    ((registerEach [turns lamp 1, turns blinking 2] .empty).2.command? "lamp").map Command.handler =
      some 1 := by
  obtain ⟨accepts, describes, -, found⟩ := declaresExactly lamp .empty [turns lamp 1, turns blinking 2]
  have refused := (declaresExactly blinking (.empty : Registry Nat) []).1
  refine ⟨accepts.mp ⟨_, lampBuilt⟩, fun consistent => ?_, ⟨lampBuilt, describes _ lampBuilt, ?_⟩, ?_⟩
  · obtain ⟨schema, made⟩ := refused.mpr consistent
    exact nomatch made
  · decide +kernel
  · rw [found]
    decide +kernel

end ConsoleShell.DeclaredCommands
