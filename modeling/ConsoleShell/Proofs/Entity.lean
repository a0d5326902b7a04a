import ConsoleShell.Markup

/-! Entities. Escaped text is read back exactly: the five kinds are read back one after another, and
what a stage has not come to yet stays an entity. Text is inert if markup gives none of its
characters a meaning, so that every ampersand in it begins an entity. -/
namespace ConsoleShell.Markup

def special : List Char := ['<', '>', '"', '\'', '&']

def entities : List Text := ["&amp;", "&lt;", "&gt;", "&quot;", "&#39;"]

theorem entityPlain {c : Char} (plain : c ∉ special) : entity c = [c] := by
  unfold entity
  split <;> simp_all [special]

theorem eachSpecial {P : Char → Prop} (lt : P '<') (gt : P '>') (quot : P '"') (apos : P '\'')
    (amp : P '&') : ∀ c ∈ special, P c := by
  simp [special, lt, gt, quot, apos, amp]

theorem entityListed : ∀ c ∈ special, entity c ∈ entities := by
  apply eachSpecial <;> decide

theorem entityHead : ∀ c ∈ special, entity c = '&' :: (entity c).tail := by
  apply eachSpecial <;> decide

theorem entityTail : ∀ c ∈ special, '&' ∉ (entity c).tail := by
  apply eachSpecial <;> decide

theorem entityKinds : ∀ c ∈ special, ∀ d ∈ special, c ≠ d →
    (entity c).take 2 ≠ (entity d).take 2 := by
  apply eachSpecial <;> apply eachSpecial <;> decide

theorem entityLong : ∀ c ∈ special, 2 ≤ (entity c).length := by
  apply eachSpecial <;> decide

theorem replaceSkip (pattern replacement : Text) (skip : Nat) (text : Text) :
    Text.replaceFrom pattern replacement skip text =
      Text.replaceFrom pattern replacement 0 (text.drop skip) := by
  induction text generalizing skip with
  | nil => cases skip <;> rfl
  | cons c rest ih =>
    cases skip with
    | zero => rfl
    | succ skip => simpa [Text.replaceFrom] using ih skip

theorem replaceMatch {pattern : Text} (nonempty : pattern ≠ []) (replacement rest : Text) :
    Text.replaceFrom pattern replacement 0 (pattern ++ rest) =
      replacement ++ Text.replaceFrom pattern replacement 0 rest := by
  obtain ⟨c, tail, rfl⟩ := List.exists_cons_of_ne_nil nonempty
  have begins : (c :: tail).isPrefixOf (c :: (tail ++ rest)) = true :=
    List.isPrefixOf_iff_prefix.mpr ⟨rest, rfl⟩
  rw [List.cons_append, Text.replaceFrom, if_pos begins, replaceSkip]
  simp

theorem replaceMiss {pattern replacement : Text} {c : Char} {rest : Text}
    (differs : ¬ pattern <+: c :: rest) :
    Text.replaceFrom pattern replacement 0 (c :: rest) =
      c :: Text.replaceFrom pattern replacement 0 rest := by
  rw [Text.replaceFrom, if_neg]
  rwa [List.isPrefixOf_iff_prefix]

theorem replacePass {first : Char} {tail replacement chunk : Text} (free : first ∉ chunk) (rest : Text) :
    Text.replaceFrom (first :: tail) replacement 0 (chunk ++ rest) =
      chunk ++ Text.replaceFrom (first :: tail) replacement 0 rest := by
  induction chunk with
  | nil => rfl
  | cons c later ih =>
    obtain ⟨other, free⟩ : first ≠ c ∧ first ∉ later := by simpa using free
    have differs : ¬ first :: tail <+: c :: (later ++ rest) := by simp [other]
    rw [List.cons_append, replaceMiss differs, ih free]
    rfl

theorem replaceOther {c d : Char} (isC : c ∈ special) (isD : d ∈ special) (other : c ≠ d)
    (replacement rest : Text) :
    Text.replaceFrom (entity d) replacement 0 (entity c ++ rest) =
      entity c ++ Text.replaceFrom (entity d) replacement 0 rest := by
  have differs : ¬ entity d <+: entity c ++ rest := by
    rintro ⟨later, same⟩
    apply entityKinds c isC d isD other
    have front := congrArg (List.take 2) same
    rw [List.take_append_of_le_length (entityLong d isD),
      List.take_append_of_le_length (entityLong c isC)] at front
    exact front.symm
  have headC := entityHead c isC
  have headD := entityHead d isD
  rw [headC, List.cons_append] at differs ⊢
  rw [replaceMiss differs, headD, replacePass (entityTail c isC)]
  rfl

/- Text whose characters of some kinds stand as entities. -/
def partly (kinds : List Char) (text : Text) : Text :=
  text.flatMap fun c => if c ∈ kinds then entity c else [c]

theorem replaceStage (d : Char) (kinds : List Char) (within : d :: kinds <:+ special)
    (fresh : d ∉ kinds) (ampersand : '&' ∈ d :: kinds) (text : Text) :
    Text.replaceAll (entity d) [d] (partly (d :: kinds) text) = partly kinds text := by
  have isD : d ∈ special := within.subset List.mem_cons_self
  have long := entityLong d isD
  have nonempty : entity d ≠ [] := by
    intro empty
    simp [empty] at long
  have split (kinds : List Char) (c : Char) (rest : Text) :
      partly kinds (c :: rest) = (if c ∈ kinds then entity c else [c]) ++ partly kinds rest := rfl
  unfold Text.replaceAll
  -- The ampersand is read back last, so until then every ampersand in the text begins an entity.
  induction text with
  | nil => rfl
  | cons c rest ih =>
    rw [split, split]
    by_cases same : c = d
    · subst same
      rw [if_pos List.mem_cons_self, if_neg fresh, replaceMatch nonempty, ih]
    · by_cases listed : c ∈ kinds
      · rw [if_pos (List.mem_cons_of_mem _ listed), if_pos listed,
          replaceOther (within.subset (List.mem_cons_of_mem _ listed)) isD same, ih]
      · have absent : c ∉ d :: kinds := by simp [same, listed]
        have other : '&' ∉ [c] := by
          intro mem
          cases List.mem_singleton.mp mem
          exact absent ampersand
        rw [if_neg absent, if_neg listed, entityHead d isD, replacePass other,
          ← entityHead d isD, ih]

theorem escapePartly (text : Text) : escape text = partly special text := by
  unfold escape partly
  congr 1
  funext c
  split
  · rfl
  · rename_i plain
    exact entityPlain plain

theorem unescapeEscape (text : Text) : unescape (escape text) = text := by
  have lt := replaceStage '<' ['>', '"', '\'', '&'] (by decide) (by decide) (by decide) text
  have gt := replaceStage '>' ['"', '\'', '&'] (by decide) (by decide) (by decide) text
  have quot := replaceStage '"' ['\'', '&'] (by decide) (by decide) (by decide) text
  have apos := replaceStage '\'' ['&'] (by decide) (by decide) (by decide) text
  have amp := replaceStage '&' [] (by decide) (by decide) (by decide) text
  have plain : partly [] text = text := by simp [partly]
  rw [escapePartly]
  show Text.replaceAll (entity '&') ['&'] (Text.replaceAll (entity '\'') ['\'']
    (Text.replaceAll (entity '"') ['"'] (Text.replaceAll (entity '>') ['>']
      (Text.replaceAll (entity '<') ['<'] (partly special text))))) = text
  rw [special, lt, gt, quot, apos, amp, plain]

theorem escapeAbsent {c : Char} (foreign : ∀ e ∈ entities, c ∉ e) {v : Text} (absent : c ∉ v) :
    c ∉ escape v := by
  intro mem
  obtain ⟨d, listed, inside⟩ := List.mem_flatMap.mp mem
  by_cases isSpecial : d ∈ special
  · exact foreign _ (entityListed d isSpecial) inside
  · rw [entityPlain isSpecial, List.mem_singleton] at inside
    exact absent (inside ▸ listed)

theorem replacedMember {pattern replacement : Text} {skip : Nat} {text : Text} {c : Char}
    (mem : c ∈ Text.replaceFrom pattern replacement skip text) : c ∈ replacement ∨ c ∈ text := by
  fun_induction Text.replaceFrom pattern replacement skip text with
  | case1 => contradiction
  | case2 skip d rest ih => exact (ih mem).imp_right (List.mem_cons_of_mem d)
  | case3 d rest begins ih =>
    rcases List.mem_append.mp mem with new | later
    · exact .inl new
    · exact (ih later).imp_right (List.mem_cons_of_mem d)
  | case4 d rest differs ih =>
    rcases List.mem_cons.mp mem with rfl | later
    · exact .inr List.mem_cons_self
    · exact (ih later).imp_right (List.mem_cons_of_mem d)

theorem unescapedMember {text : Text} {c : Char} (mem : c ∈ unescape text) : c ∈ special ∨ c ∈ text := by
  have stage {d : Char} (listed : d ∈ special) {pattern text : Text}
      (mem : c ∈ Text.replaceAll pattern [d] text) : c ∈ special ∨ c ∈ text := by
    refine (replacedMember mem).imp_left fun same => ?_
    rwa [List.mem_singleton.mp same]
  refine (stage (d := '&') (by decide) mem).elim .inl fun mem => ?_
  refine (stage (d := '\'') (by decide) mem).elim .inl fun mem => ?_
  refine (stage (d := '"') (by decide) mem).elim .inl fun mem => ?_
  refine (stage (d := '>') (by decide) mem).elim .inl fun mem => ?_
  exact stage (d := '<') (by decide) mem

def Inert : Text → Prop
  | [] => True
  | c :: rest =>
    c ∉ ['<', '>', '"', '\''] ∧ (c = '&' → ∃ e ∈ entities, e <+: c :: rest) ∧ Inert rest

def decideInert : (text : Text) → Decidable (Inert text)
  | [] => isTrue trivial
  | c :: rest =>
    have := decideInert rest
    inferInstanceAs (Decidable (c ∉ ['<', '>', '"', '\''] ∧
      (c = '&' → ∃ e ∈ entities, e <+: c :: rest) ∧ Inert rest))
instance (text) : Decidable (Inert text) := decideInert text

theorem inertSpelled {text : Text} (h : Inert text) :
    (∀ c ∈ text, c ∉ ['<', '>', '"', '\'']) ∧
      ∀ before after, text = before ++ '&' :: after → ∃ e ∈ entities, e <+: '&' :: after := by
  induction text with
  | nil => simp
  | cons c rest ih =>
    obtain ⟨allowed, begins, tail⟩ := h
    obtain ⟨characters, ampersands⟩ := ih tail
    refine ⟨?_, ?_⟩
    · intro d mem
      rcases List.mem_cons.mp mem with rfl | mem
      · exact allowed
      · exact characters d mem
    · intro before after cut
      cases before with
      | nil =>
        obtain ⟨rfl, rfl⟩ := List.cons_eq_cons.mp cut
        exact begins rfl
      | cons first before =>
        obtain ⟨-, cut⟩ := List.cons_eq_cons.mp cut
        exact ampersands before after cut

@[simp] theorem inertNil : Inert [] := trivial

theorem inertAppend {a b : Text} (ha : Inert a) (hb : Inert b) : Inert (a ++ b) := by
  induction a with
  | nil => exact hb
  | cons c rest ih =>
    obtain ⟨allowed, begins, tail⟩ := ha
    refine ⟨allowed, fun ampersand => ?_, ih tail⟩
    obtain ⟨e, listed, front⟩ := begins ampersand
    exact ⟨e, listed, front.trans (List.prefix_append (c :: rest) b)⟩

theorem inertPlain {text : Text} (plain : ∀ c ∈ text, c ∉ special) : Inert text := by
  induction text with
  | nil => trivial
  | cons c rest ih =>
    have first := plain c List.mem_cons_self
    simp only [special, List.mem_cons, not_or] at first
    refine ⟨by simp [first], by simp [first], ih fun d mem => plain d (List.mem_cons_of_mem _ mem)⟩

theorem inertDrop {a b : Text} (h : Inert (a ++ b)) : Inert b := by
  induction a with
  | nil => exact h
  | cons c rest ih => exact ih h.2.2

@[simp] theorem inertFront {a b : Text} (ha : Inert a) : Inert (a ++ b) ↔ Inert b :=
  ⟨inertDrop, inertAppend ha⟩

@[simp] theorem inertFirst {c : Char} {rest : Text} (plain : c ∉ ['<', '>', '"', '\'', '&']) :
    Inert (c :: rest) ↔ Inert rest := by
  have single : Inert [c] := inertPlain (by simpa [special] using plain)
  exact inertFront single

@[simp] theorem inertEntity (c : Char) : Inert (entity c) := by
  by_cases listed : c ∈ special
  · have all : ∀ c ∈ special, Inert (entity c) := by apply eachSpecial <;> decide
    exact all c listed
  · rw [entityPlain listed]
    exact inertPlain (by simpa using listed)

@[simp] theorem inertEscape (text : Text) : Inert (escape text) := by
  induction text with
  | nil => trivial
  | cons c rest ih => exact inertAppend (inertEntity c) ih

@[simp] theorem inertJoin {separator : Text} (between : Inert separator) {words : List Text}
    (each : ∀ w ∈ words, Inert w) : Inert (Text.join separator words) := by
  unfold Text.join
  induction words with
  | nil => trivial
  | cons w rest ih =>
    have first := each w List.mem_cons_self
    have later := ih fun x mem => each x (List.mem_cons_of_mem _ mem)
    cases rest with
    | nil => simpa using first
    | cons x more =>
      rw [List.intercalate_cons_cons]
      exact inertAppend (inertAppend first between) later

theorem prefixBefore {e before after : Text} {c : Char} (absent : c ∉ e)
    (front : e <+: before ++ c :: after) : e <+: before := by
  rcases List.prefix_or_prefix_of_prefix front (List.prefix_append before (c :: after)) with
    inside | ⟨more, rfl⟩
  · exact inside
  · cases more with
    | nil => simp
    | cons d later =>
      have next := (List.prefix_append_right_inj before).mp front
      obtain ⟨rfl, -⟩ := List.cons_prefix_cons.mp next
      simp at absent

theorem inertCut {before after : Text} {c : Char} (foreign : ∀ e ∈ entities, c ∉ e)
    (h : Inert (before ++ c :: after)) : Inert before ∧ Inert after := by
  induction before with
  | nil => exact ⟨trivial, h.2.2⟩
  | cons d rest ih =>
    obtain ⟨allowed, begins, tail⟩ := h
    obtain ⟨left, right⟩ := ih tail
    refine ⟨⟨allowed, fun ampersand => ?_, left⟩, right⟩
    obtain ⟨e, listed, front⟩ := begins ampersand
    exact ⟨e, listed, prefixBefore (foreign e listed) front⟩

end ConsoleShell.Markup
