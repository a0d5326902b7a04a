import ConsoleShell.Proofs.CanonicalLine

/-! Different spellings of one thing. A cluster of letters stands for its switches one by one, and a flag
takes the same value behind an equals sign, as the next word, and mostly also behind a single dash.
Whatever stands before and behind on the line, and whatever it comes to, makes no difference. -/
namespace ConsoleShell.Spellings
open ArgumentScan FlagGrammar
open CanonicalLine (Constructed)

structure Poised (schema : Schema) (words : List Text) (s : ArgumentScan) : Prop where
  read : words.foldlM (ArgumentScan.step schema) (.start schema) = .ok s
  ready : Ready s

def IsSwitch (schema : Schema) (letter : Char) : Prop :=
  ∃ f, schema.resolve? [letter] = some f ∧ f.kind = .boolean

variable {schema : Schema} {s : ArgumentScan} {words first second : List Text}

theorem scanAppend (post : List Text) : scan schema s (words ++ post) =
    words.foldlM (ArgumentScan.step schema) s >>= fun next => scan schema next post := by
  simp only [scan, List.foldlM_append, bind_assoc]

theorem parseFrom (poised : Poised schema words s) (declared : List Positional) (post : List Text) :
    Arguments.parse schema declared (words ++ post) =
      scan schema s post >>= Arguments.check schema declared := by
  simp only [FlagParsing.parseThenCheck, scanAppend, poised.read]
  rfl

/- What the rest of the line comes to hangs on the scan alone. -/
theorem parseMiddle (poised : Poised schema words s) (declared : List Positional) (post : List Text) :
    Arguments.parse schema declared (words ++ (first ++ post)) =
      first.foldlM (ArgumentScan.step schema) s >>= fun next =>
        scan schema next post >>= Arguments.check schema declared := by
  simp only [parseFrom poised, scanAppend, bind_assoc]

theorem switchesListed {letters : Text} (switches : ∀ letter ∈ letters, IsSwitch schema letter) :
    ∃ flags, Switches schema letters flags := by
  induction letters with
  | nil => exact ⟨[], .nil⟩
  | cons letter rest ih =>
    obtain ⟨⟨f, found, kind⟩, others⟩ := List.forall_mem_cons.mp switches
    obtain ⟨flags, later⟩ := ih others
    exact ⟨f :: flags, .cons found kind later⟩

theorem stepCluster (ready : Ready s) {letters : Text} (many : 2 ≤ letters.length)
    (plain : '-' ∉ letters) :
    s.step schema ('-' :: letters) = letters.foldlM (takeGrouped schema letters) s := by
  match letters with
  | first :: second :: rest =>
    simp only [List.mem_cons, not_or] at plain
    simp [ArgumentScan.step, ready.1, ready.2, Ne.symm plain.1]

def separate (letters : Text) : List Text := letters.map fun letter => ['-', letter]

theorem separateTaken {letters : Text} {flags : List Flag} (switches : Switches schema letters flags)
    (ready : Ready s) (plain : '-' ∉ letters) :
    (separate letters).foldlM (ArgumentScan.step schema) s =
      .ok (recordAll s (flags.map fun f => (f, .boolean true))) := by
  induction switches generalizing s with
  | nil => rfl
  | @cons letter rest f flags found kind next ih =>
    rw [List.mem_cons, not_or] at plain
    have first : s.step schema ['-', letter] = .ok (s.record f (.boolean true)) := by
      rw [stepShort ready (Ne.symm plain.1), takeShortFound found, if_pos kind]
    simp only [separate, List.map_cons, List.foldlM_cons, first]
    exact ih (s := s.record f (.boolean true)) ⟨ready.1, rfl⟩ plain.2

theorem groupedStops {group letters before after : Text} {letter : Char} {error : FlagError}
    (split : letters = before ++ letter :: after) (switches : ∀ c ∈ before, IsSwitch schema c)
    (stops : ∀ t : ArgumentScan, t.takeGrouped schema group letter = .error error) :
    letters.foldlM (takeGrouped schema group) s = .error error := by
  obtain ⟨flags, switches⟩ := switchesListed switches
  simp only [split, List.foldlM_append, lettersTaken switches, List.foldlM_cons, stops]
  rfl

theorem groupedUnknown {group : Text} {letter : Char} (unknown : schema.resolve? [letter] = none) :
    s.takeGrouped schema group letter = .error (.unknownFlag ['-', letter]) := by
  simp only [takeGrouped, find, unknown]
  rfl

theorem groupedValued {group : Text} {letter : Char} {f : Flag}
    (found : schema.resolve? [letter] = some f) (kind : f.kind ≠ .boolean) :
    s.takeGrouped schema group letter = .error (.groupedNonBoolean [letter] group) := by
  simp only [takeGrouped, findOk.mpr found]
  exact if_pos (by simpa using kind)

/- A cluster, with whatever stands around it. It is its letters one by one where all of them are
switches, and otherwise the first that is none is complained of. -/
structure Clusters (schema : Schema) (declared : List Positional) (words : List Text) (letters : Text)
    (post : List Text) : Prop where
  separate : (∀ letter ∈ letters, IsSwitch schema letter) →
    Arguments.parse schema declared (words ++ ['-' :: letters] ++ post) =
      Arguments.parse schema declared (words ++ separate letters ++ post)
  unknown : ∀ before letter after, letters = before ++ letter :: after →
    (∀ c ∈ before, IsSwitch schema c) → schema.resolve? [letter] = none →
    Arguments.parse schema declared (words ++ ['-' :: letters] ++ post) =
      .error (.unknownFlag ['-', letter])
  valued : ∀ before letter after, letters = before ++ letter :: after →
    (∀ c ∈ before, IsSwitch schema c) →
    ∀ f, schema.resolve? [letter] = some f → f.kind ≠ .boolean →
      Arguments.parse schema declared (words ++ ['-' :: letters] ++ post) =
        .error (.groupedNonBoolean [letter] letters)

theorem clusterSeparates (poised : Poised schema words s) {letters : Text} (many : 2 ≤ letters.length)
    (plain : '-' ∉ letters) (declared : List Positional) (post : List Text) :
    Clusters schema declared words letters post := by
  have cluster : Arguments.parse schema declared (words ++ ['-' :: letters] ++ post) =
      letters.foldlM (takeGrouped schema letters) s >>= fun next =>
        scan schema next post >>= Arguments.check schema declared := by
    rw [List.append_assoc, parseMiddle poised, ← stepCluster poised.ready many plain]
    simp only [List.foldlM_cons, List.foldlM_nil, bind_pure]
  have stops {before after : Text} {letter : Char} {error : FlagError}
      (split : letters = before ++ letter :: after) (switches : ∀ c ∈ before, IsSwitch schema c)
      (stops : ∀ t : ArgumentScan, t.takeGrouped schema letters letter = .error error) :
      Arguments.parse schema declared (words ++ ['-' :: letters] ++ post) = .error error := by
    rw [cluster, groupedStops split switches stops]
    rfl
  refine ⟨fun switches => ?_, fun before letter after split switches unknown => ?_,
    fun before letter after split switches f found kind => ?_⟩
  · obtain ⟨flags, listed⟩ := switchesListed switches
    rw [cluster, lettersTaken listed, List.append_assoc, parseMiddle poised,
      separateTaken listed poised.ready plain]
  · exact stops split switches fun _ => groupedUnknown unknown
  · exact stops split switches fun _ => groupedValued found kind

def lettered : List Flag :=
  [(Flag.boolean "all").withAlias "a", (Flag.boolean "long").withAlias "l",
    (Flag.string "name").withAlias "n"]

def letteredSchema : Schema := (Schema.build lettered).toOption.getD .empty

def named : List Text := ["--name", "-a", "x"]

def namedScan : ArgumentScan :=
  (named.foldlM (ArgumentScan.step letteredSchema) (.start letteredSchema)).toOption.getD (.start .empty)

theorem namedPoised : Poised letteredSchema named namedScan := ⟨rfl, rfl, rfl⟩

theorem clusterSeparatesRepeated :
    Poised letteredSchema named namedScan ∧
      Arguments.parse letteredSchema [] (["--name", "-a", "x", "-ala", "--", "-l"] : List Text) =
        Arguments.parse letteredSchema []
          (["--name", "-a", "x", "-a", "-l", "-a", "--", "-l"] : List Text) ∧
      Arguments.parse letteredSchema [] (["--name", "-a", "x", "-anz"] : List Text) =
        .error (.groupedNonBoolean "n" "anz") := by
  have all : IsSwitch letteredSchema 'a' := ⟨_, rfl, rfl⟩
  have long : IsSwitch letteredSchema 'l' := ⟨_, rfl, rfl⟩
  have clusters : Clusters letteredSchema [] named ['a', 'l', 'a'] ["--", "-l"] :=
    clusterSeparates namedPoised (by decide) (by decide) [] _
  have mixed : Clusters letteredSchema [] named ['a', 'n', 'z'] [] :=
    clusterSeparates namedPoised (by decide) (by decide) [] []
  refine ⟨namedPoised, clusters.separate ?_, ?_⟩
  · simp [all, long]
  · exact mixed.valued ['a'] 'n' ['z'] rfl (by simp [all]) _ rfl (by decide)

def givenThen (schema : Schema) (declared : List Positional) (s : ArgumentScan) (f : Flag) (typed : Text)
    (post : List Text) : Except FlagError Arguments := do
  let value ← f.cast typed
  Arguments.check schema declared (← scan schema (s.record f value) post)

theorem awaitTaken (ready : Ready s) (w : Awaiting) (typed : Text) :
    (s.await w.flag w.short).step schema typed =
      if w.short && ['-'].isPrefixOf typed then .error (.missingValue w.flag.name)
      else w.flag.cast typed >>= fun value => .ok (s.record w.flag value) := by
  have taken : (s.await w.flag w.short).step schema typed =
      (s.await w.flag w.short).takeValue w typed := by
    simp [ArgumentScan.step, await, ready.1]
  rw [taken]
  unfold takeValue
  dsimp only
  split <;> rfl

section Valued

variable {f : Flag} {key typed : Text}

theorem inlineTaken (ready : Ready s) (plain : '=' ∉ key) (found : schema.resolve? key = some f)
    (valued : f.kind ≠ .boolean) :
    s.step schema ('-' :: '-' :: (key ++ '=' :: typed)) =
      f.cast typed >>= fun value => .ok (s.record f value) := by
  rw [stepLong ready (by simp), takeLongInline plain, findOk.mpr found]
  exact if_neg valued

theorem parseInline (poised : Poised schema words s) (plain : '=' ∉ key)
    (found : schema.resolve? key = some f) (valued : f.kind ≠ .boolean) (declared : List Positional)
    (post : List Text) :
    Arguments.parse schema declared (words ++ ['-' :: '-' :: (key ++ '=' :: typed)] ++ post) =
      givenThen schema declared s f typed post := by
  rw [List.append_assoc, parseMiddle poised]
  simp only [List.foldlM_cons, List.foldlM_nil, bind_pure, inlineTaken poised.ready plain found valued,
    bind_assoc]
  rfl

theorem parseNext (poised : Poised schema words s) {word : Text} {w : Awaiting}
    (opens : Opens schema word w) (declared : List Positional) (post : List Text) :
    Arguments.parse schema declared (words ++ [word, typed] ++ post) =
      if w.short && ['-'].isPrefixOf typed then .error (.missingValue w.flag.name)
      else givenThen schema declared s w.flag typed post := by
  have next : [word, typed].foldlM (ArgumentScan.step schema) s =
      (s.await w.flag w.short).step schema typed := by
    simp only [List.foldlM_cons, List.foldlM_nil, bind_pure, opensTaken poised.ready opens]
    rfl
  rw [List.append_assoc, parseMiddle poised, next, awaitTaken poised.ready]
  split
  · rfl
  · simp only [bind_assoc]
    rfl

end Valued

structure Spelled (schema : Schema) (declared : List Positional) (words : List Text) (s : ArgumentScan)
    (f : Flag) (key typed : Text) (post : List Text) : Prop where
  inline : Arguments.parse schema declared (words ++ ['-' :: '-' :: (key ++ '=' :: typed)] ++ post) =
    Arguments.parse schema declared (words ++ ['-' :: '-' :: key, typed] ++ post)
  taken : Arguments.parse schema declared (words ++ ['-' :: '-' :: key, typed] ++ post) =
    givenThen schema declared s f typed post
  short : key.length = 1 → (∀ rest, typed ≠ '-' :: rest) →
    Arguments.parse schema declared (words ++ ['-' :: key, typed] ++ post) =
      Arguments.parse schema declared (words ++ ['-' :: '-' :: key, typed] ++ post)
  refused : key.length = 1 → (∃ rest, typed = '-' :: rest) →
    Arguments.parse schema declared (words ++ ['-' :: key, typed] ++ post) =
      .error (.missingValue f.name)

theorem namedFlag {defs : List Flag} (fits : schema.Fits defs) {f : Flag} (listed : f ∈ defs)
    (made : Constructed f) {key : Text} (mine : key ∈ f.names) :
    ∃ g, schema.resolve? key = some g ∧ Schema.Settles defs f g := by
  obtain ⟨g, there, settles⟩ := fits.settles f listed
  have names : g.names = f.names := by
    rw [settles.same]
    rfl
  refine ⟨g, ?_, settles⟩
  unfold Schema.resolve?
  rw [CanonicalLine.constructedUndashed made key mine]
  exact Schema.foundFlag fits.settledDistinct there (names ▸ mine)

theorem spellingsAgree {defs : List Flag} (built : Schema.build defs = .ok schema)
    (constructed : ∀ f ∈ defs, Constructed f) {f : Flag} (listed : f ∈ defs) (valued : f.kind ≠ .boolean)
    {key : Text} (mine : key ∈ f.names) (named : key ≠ []) (plain : '=' ∉ key)
    (poised : Poised schema words s) (declared : List Positional) (typed : Text) (post : List Text) :
    Spelled schema declared words s f key typed post := by
  obtain ⟨g, found, settles⟩ := namedFlag (Schema.builtFits built) listed (constructed f listed) mine
  have name : g.name = f.name := settles.name
  have kind : g.kind ≠ .boolean := by
    rw [settles.same]
    exact valued
  have given : givenThen schema declared s g typed post = givenThen schema declared s f typed post := by
    simp only [givenThen, record, settles.cast, name]
  have long : Arguments.parse schema declared (words ++ ['-' :: '-' :: key, typed] ++ post) =
      givenThen schema declared s f typed post := by
    rw [parseNext poised (.long named plain found kind), given]
    simp
  have short (one : key.length = 1) :
      Arguments.parse schema declared (words ++ ['-' :: key, typed] ++ post) =
        if ['-'].isPrefixOf typed then .error (.missingValue f.name)
        else givenThen schema declared s f typed post := by
    obtain ⟨letter, rfl⟩ := List.length_eq_one_iff.mp one
    -- Names are held without dashes, so the letter is none.
    have dashless : letter ≠ '-' := by
      rintro rfl
      have undashed := CanonicalLine.constructedUndashed (constructed f listed) _ mine
      simp [Flag.dropDashes] at undashed
    rw [parseNext poised (.short dashless found kind), given, name]
    simp
  refine ⟨?_, long, fun one dashless => ?_, fun one dashed => ?_⟩
  · rw [parseInline poised plain found kind, given, long]
  · rw [short one, long]
    refine if_neg fun dash => ?_
    obtain ⟨rest, same⟩ := beginsDash.mp dash
    exact dashless rest same
  · rw [short one]
    exact if_pos (beginsDash.mpr dashed)

theorem letteredConstructed : ∀ f ∈ lettered, Constructed f := by
  refine List.forall_mem_cons.mpr ⟨.withAlias (.ofKind .boolean "all") "a", ?_⟩
  refine List.forall_mem_cons.mpr ⟨.withAlias (.ofKind .boolean "long") "l", ?_⟩
  exact List.forall_mem_singleton.mpr (.withAlias (.ofKind .string "name") "n")

theorem spellingsAgreeDashed :
    let parse := Arguments.parse letteredSchema []
    Poised letteredSchema named namedScan ∧
      parse (["--name", "-a", "x", "--n=-l=a", "--", "-l"] : List Text) =
        parse (["--name", "-a", "x", "--n", "-l=a", "--", "-l"] : List Text) ∧
      parse (["--name", "-a", "x", "-n", "-l=a", "--", "-l"] : List Text) =
        .error (.missingValue "name") ∧
      parse (["--name", "-a", "x", "-n", "l=a", "--", "-l"] : List Text) =
        parse (["--name", "-a", "x", "--n", "l=a", "--", "-l"] : List Text) := by
  have listed : (Flag.string "name").withAlias "n" ∈ lettered := by decide
  have mine : ['n'] ∈ ((Flag.string "name").withAlias "n").names := by decide
  have spelled := spellingsAgree rfl letteredConstructed listed (by decide) mine (by decide) (by decide)
    namedPoised []
  have dashed := spelled "-l=a" ["--", "-l"]
  exact ⟨namedPoised, dashed.inline, dashed.refused rfl ⟨_, rfl⟩,
    (spelled "l=a" ["--", "-l"]).short rfl fun rest same => nomatch same⟩

end ConsoleShell.Spellings
