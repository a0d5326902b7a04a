import ConsoleShell.Command.Basic
import ConsoleShell.Proofs.Basic
import ConsoleShell.Proofs.Dict
import ConsoleShell.Proofs.Entity
import ConsoleShell.Proofs.FlagSchema

/-! All text in the arguments that a command is given is escaped: the words, the values that the
line gives to flags, and the values of flags that the line does not name. -/
namespace ConsoleShell

namespace Arguments
open Markup

def ValueInert (value : Option FlagValue) : Prop := ∀ text, value = some (.text text) → Inert text

def ArgumentsInert (a : Arguments) : Prop :=
  (∀ word ∈ a.positionals, Inert word) ∧ a.flags.Every fun state => ValueInert state.value

theorem textInert {a : Arguments} (inert : ArgumentsInert a) {name value : Text}
    (found : a.text? name = some value) : Inert value := by
  unfold Arguments.text? Arguments.value? at found
  split at found
  · rename_i text same
    cases Option.some.inj found
    obtain ⟨state, stored, holds⟩ := Option.bind_eq_some_iff.mp same
    exact Dict.everyFound inert.2 stored value holds
  · contradiction

theorem castInert {f : Flag} {typed : Text} {value : FlagValue} (cast : f.cast typed = .ok value) :
    ValueInert (some value) := by
  rintro text same
  cases Option.some.inj same
  unfold Flag.cast at cast
  split at cast
  · split at cast
    · cases cast
      exact inertEscape typed
    · split at cast
      · cases cast
        exact inertEscape typed
      · contradiction
  · split at cast <;> cases cast
  · cases cast

theorem initialInert {f : Flag} {value : Option FlagValue}
    (made : Schema.initialValue f = .ok value) : ValueInert value := by
  unfold Schema.initialValue at made
  split at made
  · cases made
    intro text same
    split at same <;> cases same
  · split at made
    · rename_i cast
      cases made
      exact castInert cast
    · contradiction

def SchemaInert (schema : Schema) : Prop := ∀ entry ∈ schema.entries, ValueInert entry.2

theorem buildInert {flags : List Flag} {schema : Schema} (built : Schema.build flags = .ok schema) :
    SchemaInert schema := by
  obtain ⟨-, settled, values, -, initial, rfl⟩ := Schema.buildOk.mp built
  intro entry mem
  obtain ⟨f, _, made⟩ := mappedFrom initial (List.of_mem_zip mem).2
  exact initialInert made

def ScanInert (s : ArgumentScan) : Prop :=
  (∀ word ∈ s.positionals, Inert word) ∧ s.flags.Every fun state => ValueInert state.value

theorem startInert {schema : Schema} (inert : SchemaInert schema) :
    ScanInert (ArgumentScan.start schema) := by
  refine ⟨by simp [ArgumentScan.start], Dict.everyOfList fun entry mem => ?_⟩
  obtain ⟨source, listed, rfl⟩ := List.mem_map.mp mem
  exact inert source listed

theorem addInert {s : ArgumentScan} (h : ScanInert s) (word : Text) :
    ScanInert (s.addPositional word) :=
  ⟨eachAdded h.1 (inertEscape word), h.2⟩

theorem recordInert {s : ArgumentScan} (h : ScanInert s) (f : Flag) {value : FlagValue}
    (inert : ValueInert (some value)) : ScanInert (s.record f value) :=
  ⟨h.1, Dict.everyInsert h.2 inert f.name⟩

theorem recordSwitch {s : ArgumentScan} (h : ScanInert s) (f : Flag) (on : Bool) :
    ScanInert (s.record f (.boolean on)) :=
  recordInert h f fun _ same => nomatch same

theorem takeValueInert {s next : ArgumentScan} {a : Awaiting} {word : Text} (h : ScanInert s)
    (taken : s.takeValue a word = .ok next) : ScanInert next := by
  unfold ArgumentScan.takeValue at taken
  dsimp only at taken
  split at taken
  · contradiction
  · obtain ⟨value, cast, same⟩ := bindOk.mp taken
    cases same
    exact recordInert h a.flag (castInert cast)

theorem takeLongInert {schema : Schema} {s next : ArgumentScan} {body : Text} (h : ScanInert s)
    (taken : s.takeLong schema body = .ok next) : ScanInert next := by
  unfold ArgumentScan.takeLong at taken
  dsimp only at taken
  obtain ⟨f, found, taken⟩ := bindOk.mp taken
  split at taken
  · contradiction
  · cases taken
    exact recordSwitch h f true
  · obtain ⟨value, cast, same⟩ := bindOk.mp taken
    cases same
    exact recordInert h f (castInert cast)
  · cases taken
    exact h

theorem takeShortInert {schema : Schema} {s next : ArgumentScan} {letter : Char} (h : ScanInert s)
    (taken : s.takeShort schema letter = .ok next) : ScanInert next := by
  obtain ⟨f, found, same⟩ := bindOk.mp taken
  cases same
  split
  · exact recordSwitch h f true
  · exact h

theorem takeGroupedInert {schema : Schema} {group : Text} {s next : ArgumentScan} {letter : Char}
    (taken : ArgumentScan.takeGrouped schema group s letter = .ok next) (h : ScanInert s) :
    ScanInert next := by
  obtain ⟨f, found, taken⟩ := bindOk.mp taken
  dsimp only at taken
  split at taken
  · contradiction
  · cases taken
    exact recordSwitch h f true

theorem stepInert {schema : Schema} {s next : ArgumentScan} {word : Text}
    (step : s.step schema word = .ok next) (h : ScanInert s) : ScanInert next := by
  unfold ArgumentScan.step at step
  split at step
  · cases step
    exact addInert h word
  · split at step
    · exact takeValueInert h step
    · split at step
      · cases step
        exact h
      · exact takeLongInert h step
      · exact takeShortInert h step
      · exact foldedKeeps (fun _ _ _ => takeGroupedInert) step h
      · cases step
        exact addInert h word

theorem readInert {schema : Schema} {declared : List Positional} {words : List Text}
    {a : Arguments} (inert : SchemaInert schema) (read : parse schema declared words = .ok a) :
    ArgumentsInert a := by
  obtain ⟨scan, run, read⟩ := bindOk.mp read
  obtain ⟨unchecked, finished, checked⟩ := bindOk.mp read
  have held := foldedKeeps (fun _ _ _ => stepInert) run (startInert inert)
  unfold ArgumentScan.finish at finished
  split at finished
  · contradiction
  · cases finished
    unfold check at checked
    split at checked
    · contradiction
    · cases checked
      exact held

theorem rawInert (words : List Text) : ArgumentsInert (raw words) := by
  refine ⟨fun word mem => ?_, fun _ mem => nomatch mem⟩
  obtain ⟨typed, _, rfl⟩ := List.mem_map.mp mem
  exact inertEscape typed

theorem builtAs {ρ : Type} {d : CommandDeclaration ρ} {c : Command ρ}
    (built : Command.ofDeclaration d = .ok c) : c.name = d.name ∧ c.handler = d.handler := by
  unfold Command.ofDeclaration at built
  split at built
  · cases built
    exact ⟨rfl, rfl⟩
  · obtain ⟨schema, -, made⟩ := bindOk.mp built
    cases made
    exact ⟨rfl, rfl⟩

theorem parseInert {ρ : Type} {d : CommandDeclaration ρ} {c : Command ρ} {words : List Text}
    {a : Arguments} (built : Command.ofDeclaration d = .ok c) (read : c.parse words = .ok a) :
    ArgumentsInert a := by
  unfold Command.ofDeclaration at built
  split at built
  · cases built
    cases read
    exact rawInert words
  · obtain ⟨schema, made, same⟩ := bindOk.mp built
    cases same
    exact readInert (buildInert made) read

end Arguments
end ConsoleShell
