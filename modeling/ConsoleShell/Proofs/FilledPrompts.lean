import ConsoleShell.Config.Prompt
import ConsoleShell.Proofs.Entity

/-! Prompts. A template is read once into characters and places for the user and the directory, and what it is
meant to come to is this list with the places filled. The prompt is filled in two rounds, and the second reads
the text that the first has left: it finds a place for the directory wherever one can be read there. So the two
agree exactly if as many can be read there as in the template, or if the directory is spelled like its place. -/
namespace ConsoleShell.FilledPrompts
open Prompt (displayDirectory)

def userPlace : Text := "\x7buser\x7d"

def directoryPlace : Text := "\x7bcwd\x7d"

inductive Slot where
  | character (c : Char)
  | user
  | directory
  deriving DecidableEq, Repr

def Slot.filled (user directory : Text) : Slot → Text
  | character c => [c]
  | .user => user
  | .directory => directory

def fill (user directory : Text) (slots : List Slot) : Text := slots.flatMap (Slot.filled user directory)

def slotsFrom : Nat → Text → List Slot
  | _, [] => []
  | skip + 1, _ :: rest => slotsFrom skip rest
  | 0, c :: rest =>
    if userPlace.isPrefixOf (c :: rest) then .user :: slotsFrom (userPlace.length - 1) rest
    else if directoryPlace.isPrefixOf (c :: rest) then .directory :: slotsFrom (directoryPlace.length - 1) rest
    else .character c :: slotsFrom 0 rest

def slots (text : Text) : List Slot := slotsFrom 0 text

def places (slots : List Slot) : Nat := slots.count .directory

inductive Reads : Text → List Slot → Prop where
  | nil : Reads [] []
  | user {rest slots} (later : Reads rest slots) : Reads (userPlace ++ rest) (.user :: slots)
  | directory {rest slots} (later : Reads rest slots) : Reads (directoryPlace ++ rest) (.directory :: slots)
  | character {c rest slots} (noUser : ¬ userPlace <+: c :: rest) (noDirectory : ¬ directoryPlace <+: c :: rest)
      (later : Reads rest slots) : Reads (c :: rest) (.character c :: slots)

def place (directory : Text) (items : List (Option Char)) : Text :=
  items.flatMap fun item => item.elim directory ([·])

def spread (user : Text) (slots : List Slot) : List (Option Char) :=
  slots.flatMap fun
    | .character c => [some c]
    | .user => user.map some
    | .directory => [none]

/- How what is read in a text lies against the places kept in it: every kept place is read again, and others
may be read among the characters. -/
inductive Against : List (Option Char) → List Slot → Prop where
  | nil : Against [] []
  | kept {items read} (later : Against items read) : Against (none :: items) (.directory :: read)
  | found {items read} (later : Against items read) :
      Against (directoryPlace.map some ++ items) (.directory :: read)
  | user {items read} (later : Against items read) : Against (userPlace.map some ++ items) (.user :: read)
  | character {c items read} (later : Against items read) : Against (some c :: items) (.character c :: read)

def Within (home cwd : Text) : Prop := home ≠ [] ∧ (cwd = home ∨ home ++ ['/'] <+: cwd)

variable {text rest user directory replacement : Text} {read : List Slot} {items : List (Option Char)}

theorem dropBegins {first later : Text} {c : Char} (nonempty : first ≠ []) (whole : first ++ later = c :: rest) :
    rest.drop (first.length - 1) = later := by
  obtain ⟨d, tail, rfl⟩ := List.exists_cons_of_ne_nil nonempty
  rw [← (List.cons_eq_cons.mp whole).2]
  exact List.drop_left

theorem readsFrom (skip : Nat) (text : Text) : Reads (text.drop skip) (slotsFrom skip text) := by
  induction text generalizing skip with
  | nil => simpa [slotsFrom] using Reads.nil
  | cons c rest ih =>
    cases skip with
    | succ skip => exact ih skip
    | zero =>
      unfold slotsFrom
      split
      · rename_i begins
        obtain ⟨later, whole⟩ := List.isPrefixOf_iff_prefix.mp begins
        have next := ih (userPlace.length - 1)
        rw [dropBegins (by decide) whole] at next
        rw [List.drop_zero, ← whole]
        exact .user next
      · rename_i noUser
        split
        · rename_i begins
          obtain ⟨later, whole⟩ := List.isPrefixOf_iff_prefix.mp begins
          have next := ih (directoryPlace.length - 1)
          rw [dropBegins (by decide) whole] at next
          rw [List.drop_zero, ← whole]
          exact .directory next
        · rename_i noDirectory
          rw [List.isPrefixOf_iff_prefix] at noUser noDirectory
          exact .character noUser noDirectory (ih 0)

theorem readsSlots (text : Text) : Reads text (slots text) := readsFrom 0 text

theorem placesApart : ¬ (userPlace <+: directoryPlace ++ rest) ∧ ¬ (directoryPlace <+: userPlace ++ rest) := by
  simp [userPlace, directoryPlace]

theorem replaceUser (h : Reads text read) (replacement : Text) :
    Text.replaceAll userPlace replacement text = fill replacement directoryPlace read := by
  unfold Text.replaceAll fill
  induction h with
  | nil => rfl
  | user later ih => rw [Markup.replaceMatch (by decide), ih, List.flatMap_cons, Slot.filled]
  | @directory rest read later ih =>
    have passed : Text.replaceFrom userPlace replacement 0 ("cwd\x7d" ++ rest) = _ :=
      Markup.replacePass (by decide) rest
    rw [List.flatMap_cons, ← ih]
    exact (Markup.replaceMiss placesApart.1).trans (congrArg ('\x7b' :: ·) passed)
  | character noUser noDirectory later ih => rw [Markup.replaceMiss noUser, ih, List.flatMap_cons]; rfl

theorem replaceDirectory (h : Reads text read) (replacement : Text) :
    Text.replaceAll directoryPlace replacement text = fill userPlace replacement read := by
  unfold Text.replaceAll fill
  induction h with
  | nil => rfl
  | @user rest read later ih =>
    have passed : Text.replaceFrom directoryPlace replacement 0 ("user\x7d" ++ rest) = _ :=
      Markup.replacePass (by decide) rest
    rw [List.flatMap_cons, ← ih]
    exact (Markup.replaceMiss placesApart.2).trans (congrArg ('\x7b' :: ·) passed)
  | directory later ih => rw [Markup.replaceMatch (by decide), ih, List.flatMap_cons, Slot.filled]
  | character noUser noDirectory later ih => rw [Markup.replaceMiss noDirectory, ih, List.flatMap_cons]; rfl

theorem placeAppend (directory : Text) (items others : List (Option Char)) :
    place directory (items ++ others) = place directory items ++ place directory others :=
  List.flatMap_append

theorem placeCharacters (directory chunk : Text) : place directory (chunk.map some) = chunk := by
  unfold place
  rw [List.flatMap_map]
  exact List.flatMap_singleton' chunk

theorem placeSpread (user directory : Text) (slots : List Slot) :
    place directory (spread user slots) = fill user directory slots := by
  induction slots with
  | nil => rfl
  | cons slot rest ih =>
    have split : spread user (slot :: rest) = spread user [slot] ++ spread user rest := by simp [spread]
    rw [split, placeAppend, ih]
    cases slot with
    | character c => rfl
    | user =>
      have alone : spread user [.user] = user.map some := by simp [spread]
      rw [alone, placeCharacters]
      rfl
    | directory =>
      have alone : place directory (spread user [.directory]) = directory := by simp [spread, place]
      rw [alone]
      rfl

theorem spreadPlaces (user : Text) (slots : List Slot) : (spread user slots).count none = places slots := by
  unfold spread places
  induction slots with
  | nil => rfl
  | cons slot rest ih =>
    rw [List.flatMap_cons, List.count_append, ih, List.count_cons]
    cases slot <;> simp [List.count_eq_zero, Nat.add_comm]

theorem placeBehind {chunk : Text} (free : '\x7b' ∉ chunk) (same : place directoryPlace items = chunk ++ rest) :
    ∃ others, items = chunk.map some ++ others ∧ place directoryPlace others = rest := by
  induction chunk generalizing items with
  | nil => exact ⟨items, rfl, same⟩
  | cons c chunk ih =>
    obtain ⟨other, later⟩ : '\x7b' ≠ c ∧ '\x7b' ∉ chunk := by simpa using free
    cases items with
    | nil => cases same
    | cons item items =>
      cases item with
      | none => exact absurd (List.cons_eq_cons.mp same).1 other
      | some d =>
        obtain ⟨rfl, tail⟩ := List.cons_eq_cons.mp same
        obtain ⟨others, rfl, behind⟩ := ih later tail
        exact ⟨others, rfl, behind⟩

theorem readAgainst (h : Reads text read) (same : place directoryPlace items = text) : Against items read := by
  induction h generalizing items with
  | nil =>
    cases items with
    | nil => exact .nil
    | cons item items => cases item <;> cases same
  | @user rest read later ih =>
    cases items with
    | nil => cases same
    | cons item items =>
      cases item with
      | none => exact absurd ⟨_, same⟩ placesApart.2
      | some c =>
        obtain ⟨rfl, tail⟩ := List.cons_eq_cons.mp same
        obtain ⟨others, rfl, behind⟩ := placeBehind (by decide : '\x7b' ∉ "user\x7d".toList) tail
        exact .user (ih behind)
  | @directory rest read later ih =>
    cases items with
    | nil => cases same
    | cons item items =>
      cases item with
      | none => exact .kept (ih (List.append_cancel_left same))
      | some c =>
        obtain ⟨rfl, tail⟩ := List.cons_eq_cons.mp same
        obtain ⟨others, rfl, behind⟩ := placeBehind (by decide : '\x7b' ∉ "cwd\x7d".toList) tail
        exact .found (ih behind)
  | character noUser noDirectory later ih =>
    cases items with
    | nil => cases same
    | cons item items =>
      cases item with
      | none => exact absurd ⟨_, same⟩ noDirectory
      | some c =>
        obtain ⟨rfl, tail⟩ := List.cons_eq_cons.mp same
        exact .character (ih tail)

theorem characterPlaces (chunk : Text) (items : List (Option Char)) :
    (chunk.map some ++ items).count none = items.count none := by
  rw [List.count_append, List.count_eq_zero.mpr (by simp), Nat.zero_add]

theorem placesFound (against : Against items read) : items.count none ≤ places read := by
  unfold places
  induction against with
  | nil => exact Nat.le_refl _
  | kept later ih => simpa using ih
  | found later ih =>
    rw [characterPlaces, List.count_cons_self]
    exact Nat.le_succ_of_le ih
  | user later ih => rwa [characterPlaces, List.count_cons_of_ne (by simp)]
  | character later ih => rwa [List.count_cons_of_ne (by simp), List.count_cons_of_ne (by simp)]

theorem spelledAgain (against : Against items read) :
    fill userPlace directoryPlace read = place directoryPlace items := by
  unfold fill
  induction against with
  | nil => rfl
  | kept later ih => rw [List.flatMap_cons, ih]; rfl
  | found later ih => rw [List.flatMap_cons, ih, placeAppend, placeCharacters]; rfl
  | user later ih => rw [List.flatMap_cons, ih, placeAppend, placeCharacters]; rfl
  | character later ih => rw [List.flatMap_cons, ih]; rfl

/- The texts differ in length by as many directories in the place of their places as places were found. -/
theorem filledLength (against : Against items read) (directory : Text) :
    (fill userPlace directory read).length + directory.length * items.count none +
        directoryPlace.length * places read =
      (place directory items).length + directory.length * places read +
        directoryPlace.length * items.count none := by
  unfold fill places
  induction against with
  | nil => rfl
  | kept later ih =>
    simp only [List.flatMap_cons, List.length_append, List.count_cons_self, place, Nat.mul_add_one, Slot.filled,
      Option.elim] at ih ⊢
    omega
  | found later ih =>
    rw [placeAppend, placeCharacters, characterPlaces]
    simp only [List.flatMap_cons, List.length_append, List.count_cons_self, Nat.mul_add_one, Slot.filled] at ih ⊢
    omega
  | user later ih =>
    rw [placeAppend, placeCharacters, characterPlaces, List.count_cons_of_ne (by simp)]
    simp only [List.flatMap_cons, List.length_append, Slot.filled] at ih ⊢
    omega
  | character later ih =>
    rw [List.count_cons_of_ne (by simp), List.count_cons_of_ne (by simp)]
    simp only [List.flatMap_cons, List.length_append, place, Slot.filled, Option.elim] at ih ⊢
    omega

theorem foundTells (against : Against items read) (directory : Text) :
    directory ++ fill userPlace directory read = directoryPlace ++ place directory items ↔
      directory = directoryPlace := by
  constructor
  · intro same
    have least := placesFound against
    have lengths := congrArg List.length same
    have filled := filledLength against directory
    rw [List.length_append, List.length_append] at lengths
    obtain ⟨more, count⟩ := Nat.exists_eq_add_of_le least
    rw [count] at filled
    -- What is filled in too often makes the one side longer, unless the directory is as long as its place.
    have equal : directory.length * (more + 1) = directoryPlace.length * (more + 1) := by
      simp only [Nat.mul_add, Nat.mul_one] at filled ⊢
      omega
    exact (List.append_inj same (Nat.eq_of_mul_eq_mul_right (Nat.succ_pos more) equal)).1
  · rintro rfl
    rw [spelledAgain against]

theorem filledAlike (against : Against items read) (directory : Text) :
    fill userPlace directory read = place directory items ↔
      directory = directoryPlace ∨ places read = items.count none := by
  induction against with
  | nil => exact iff_of_true rfl (.inr rfl)
  | @kept items read later ih =>
    have counts : places (.directory :: read) = (none :: items).count none ↔ places read = items.count none := by
      simp [places]
    rw [counts, ← ih]
    exact List.append_right_inj directory
  | @found items read later ih =>
    have most : places (.directory :: read) ≠ items.count none := by
      have least := placesFound later
      unfold places at least ⊢
      rw [List.count_cons_self]
      omega
    rw [placeAppend, placeCharacters, characterPlaces, or_iff_left most]
    exact foundTells later directory
  | @user items read later ih =>
    have counts : places (.user :: read) = places read := List.count_cons_of_ne (by simp)
    rw [placeAppend, placeCharacters, characterPlaces, counts, ← ih]
    exact List.append_right_inj userPlace
  | @character c items read later ih =>
    have counts : places (.character c :: read) = places read := List.count_cons_of_ne (by simp)
    rw [counts, List.count_cons_of_ne (by simp), ← ih]
    exact List.append_right_inj [c]

theorem onlyKept (against : Against items read) (plain : some '\x7b' ∉ items) : places read = items.count none := by
  unfold places
  induction against with
  | nil => rfl
  | kept later ih =>
    rw [List.count_cons_self, List.count_cons_self, ih fun mem => plain (List.mem_cons_of_mem _ mem)]
  | found | user => exact absurd (List.mem_append_left _ List.mem_cons_self) plain
  | character later ih =>
    rw [List.count_cons_of_ne (by simp), List.count_cons_of_ne (by simp),
      ih fun mem => plain (List.mem_cons_of_mem _ mem)]

theorem spreadPlain {c : Char} (noUser : c ∉ user) (noCharacter : .character c ∉ read) :
    some c ∉ spread user read := by
  unfold spread
  intro mem
  obtain ⟨slot, listed, inside⟩ := List.mem_flatMap.mp mem
  cases slot with
  | character d =>
    cases List.mem_singleton.mp inside
    exact noCharacter listed
  | user =>
    obtain ⟨d, there, same⟩ := List.mem_map.mp inside
    cases same
    exact noUser there
  | directory => cases List.mem_singleton.mp inside

section Directory

variable {home cwd : Text}

theorem withinIff : Within home (home ++ rest) ↔
    (!home.isEmpty && (rest.isEmpty || ['/'].isPrefixOf rest)) = true := by
  simp [Within, List.prefix_append_right_inj]

theorem withinBegins (within : Within home cwd) : home <+: cwd := by
  rcases within.2 with rfl | longer
  · exact List.prefix_rfl
  · exact (List.prefix_append home ['/']).trans longer

theorem displayedBehind (home rest : Text) : displayDirectory (home ++ rest) home =
    if !home.isEmpty && (rest.isEmpty || ['/'].isPrefixOf rest) then '~' :: rest else home ++ rest := by
  simp [displayDirectory, Text.dropStart?]

theorem displayedWithin (within : Within home cwd) : displayDirectory cwd home = '~' :: cwd.drop home.length := by
  obtain ⟨rest, rfl⟩ := withinBegins within
  rw [displayedBehind, if_pos (withinIff.mp within), List.drop_left]

theorem displayedElsewhere (elsewhere : ¬ Within home cwd) : displayDirectory cwd home = cwd := by
  by_cases begins : home <+: cwd
  · obtain ⟨rest, rfl⟩ := begins
    rw [displayedBehind, if_neg (mt withinIff.mpr elsewhere)]
  · rw [← List.isPrefixOf_iff_prefix] at begins
    unfold displayDirectory Text.dropStart?
    rw [if_neg begins]

end Directory

structure Rendered (template user cwd home prompt : Text) (again : List Slot) : Prop where
  within : Within home cwd → displayDirectory cwd home = '~' :: cwd.drop home.length
  elsewhere : ¬ Within home cwd → displayDirectory cwd home = cwd
  rounds : prompt = fill userPlace (displayDirectory cwd home) again
  atOnce : prompt = fill user (displayDirectory cwd home) (slots template) ↔
    displayDirectory cwd home = directoryPlace ∨ places again = places (slots template)
  unbraced : '\x7b' ∉ user → .character '\x7b' ∉ slots template →
    prompt = fill user (displayDirectory cwd home) (slots template)

theorem fillsInRounds (template user cwd home : Text) :
    Reads template (slots template) ∧ Rendered template user cwd home (Prompt.render template user cwd home)
      (slots (fill user directoryPlace (slots template))) := by
  have read := readsSlots template
  have again := readsSlots (fill user directoryPlace (slots template))
  have against := readAgainst again (placeSpread user directoryPlace (slots template))
  have rounds : Prompt.render template user cwd home = fill userPlace (displayDirectory cwd home)
      (slots (fill user directoryPlace (slots template))) := by
    change Text.replaceAll directoryPlace _ (Text.replaceAll userPlace user template) = _
    rw [replaceUser read, replaceDirectory again]
  have atOnce : Prompt.render template user cwd home = fill user (displayDirectory cwd home) (slots template) ↔
      displayDirectory cwd home = directoryPlace ∨
        places (slots (fill user directoryPlace (slots template))) = places (slots template) := by
    rw [rounds, ← placeSpread user (displayDirectory cwd home) (slots template), filledAlike against, spreadPlaces]
  refine ⟨read, displayedWithin, displayedElsewhere, rounds, atOnce, fun noUser noCharacter => ?_⟩
  have kept := onlyKept against (spreadPlain noUser noCharacter)
  exact atOnce.mpr (.inr (kept.trans (spreadPlaces user _)))

theorem namesTakenForPlaces :
    slots userPlace = [.user] ∧ fill directoryPlace "/" [.user] = directoryPlace ∧
      Prompt.render userPlace directoryPlace "/" [] = "/" ∧
    slots "\x7b\x7buser\x7d" = [.character '\x7b', .user] ∧
      fill "cwd\x7d" "/" [.character '\x7b', .user] = directoryPlace ∧
      Prompt.render "\x7b\x7buser\x7d" "cwd\x7d" "/" [] = "/" := by
  decide +kernel

end ConsoleShell.FilledPrompts
