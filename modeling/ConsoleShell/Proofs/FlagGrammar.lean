import ConsoleShell.Flag.Arguments
import ConsoleShell.Proofs.FlagSchema

/-! What the words after a command name stand for. A row of words falls into words that set flags, flags
with the next word for their value, and positional arguments; behind two dashes there are only the last.
The scan from left to right accepts exactly such rows. -/
namespace ConsoleShell.FlagGrammar

abbrev Settings := List (Flag × FlagValue)

inductive Switches (schema : Schema) : Text → List Flag → Prop where
  | nil : Switches schema [] []
  | cons {letter rest f flags} (found : schema.resolve? [letter] = some f) (kind : f.kind = .boolean)
      (next : Switches schema rest flags) : Switches schema (letter :: rest) (f :: flags)

inductive Sets (schema : Schema) : Text → Settings → Prop where
  | long {name f} (named : name ≠ []) (plain : '=' ∉ name) (found : schema.resolve? name = some f)
      (kind : f.kind = .boolean) : Sets schema ('-' :: '-' :: name) [(f, .boolean true)]
  | inline {name typed f value} (plain : '=' ∉ name) (found : schema.resolve? name = some f)
      (kind : f.kind ≠ .boolean) (cast : f.cast typed = .ok value) :
      Sets schema ('-' :: '-' :: (name ++ '=' :: typed)) [(f, value)]
  | letters {first rest flags} (short : first ≠ '-')
      (switches : Switches schema (first :: rest) flags) :
      Sets schema ('-' :: first :: rest) (flags.map fun f => (f, .boolean true))

inductive Opens (schema : Schema) : Text → Awaiting → Prop where
  | long {name f} (named : name ≠ []) (plain : '=' ∉ name) (found : schema.resolve? name = some f)
      (kind : f.kind ≠ .boolean) : Opens schema ('-' :: '-' :: name) ⟨f, false⟩
  | short {letter f} (short : letter ≠ '-') (found : schema.resolve? [letter] = some f)
      (kind : f.kind ≠ .boolean) : Opens schema ['-', letter] ⟨f, true⟩

def Plain (word : Text) : Prop := word = ['-'] ∨ ∀ rest, word ≠ '-' :: rest

/- Rows of words, with the settings and the positional arguments that they fall into. -/
inductive Reads (schema : Schema) : List Text → Settings → List Text → Prop where
  | done : Reads schema [] [] []
  | dashes (words) : Reads schema (['-', '-'] :: words) [] words
  | sets {word first words taken plain} (sets : Sets schema word first)
      (next : Reads schema words taken plain) : Reads schema (word :: words) (first ++ taken) plain
  | value {word a typed value words taken plain} (opens : Opens schema word a)
      (fits : a.short = true → ∀ rest, typed ≠ '-' :: rest) (cast : a.flag.cast typed = .ok value)
      (next : Reads schema words taken plain) :
      Reads schema (word :: typed :: words) ((a.flag, value) :: taken) plain
  | plain {word words taken plain} (isPlain : Plain word) (next : Reads schema words taken plain) :
      Reads schema (word :: words) taken (word :: plain)

def recordAll (s : ArgumentScan) (taken : Settings) : ArgumentScan :=
  taken.foldl (fun s t => s.record t.1 t.2) s

def outcome (s : ArgumentScan) (taken : Settings) (plain : List Text) : Arguments :=
  ⟨(recordAll s taken).flags, s.positionals ++ plain.map Markup.escape⟩

def scan (schema : Schema) (s : ArgumentScan) (words : List Text) : Except FlagError Arguments := do
  (← words.foldlM (ArgumentScan.step schema) s).finish

theorem cutNone {c : Char} {text : Text} : Text.cut? c text = none ↔ c ∉ text := by
  induction text with
  | nil => simp [Text.cut?]
  | cons first rest ih =>
    unfold Text.cut?
    by_cases same : first = c
    · simp [same]
    · simp [same, ih, Ne.symm same]

theorem cutSome {c : Char} {text before after : Text}
    (cut : Text.cut? c text = some (before, after)) : c ∉ before ∧ text = before ++ c :: after := by
  induction text generalizing before with
  | nil => cases cut
  | cons first rest ih =>
    unfold Text.cut? at cut
    split at cut
    · rename_i same
      cases cut
      exact ⟨List.not_mem_nil, congrArg (· :: after) same⟩
    · rename_i different
      obtain ⟨⟨others, behind⟩, found, same⟩ := Option.map_eq_some_iff.mp cut
      cases same
      obtain ⟨free, rfl⟩ := ih found
      refine ⟨fun mem => ?_, rfl⟩
      rcases List.mem_cons.mp mem with rfl | later
      · exact different rfl
      · exact free later

theorem cutFound {c : Char} {before : Text} (free : c ∉ before) (after : Text) :
    Text.cut? c (before ++ c :: after) = some (before, after) := by
  induction before with
  | nil => simp [Text.cut?]
  | cons first rest ih =>
    rw [List.mem_cons, not_or] at free
    simp [Text.cut?, Ne.symm free.1, ih free.2]

theorem findOk {schema : Schema} {dashes name : Text} {f : Flag} :
    ArgumentScan.find schema dashes name = .ok f ↔ schema.resolve? name = some f := by
  unfold ArgumentScan.find
  cases schema.resolve? name <;> simp

section Steps

variable {schema : Schema} {s next : ArgumentScan}

def Ready (s : ArgumentScan) : Prop := s.closed = false ∧ s.awaiting = none

theorem recordAllReady (ready : Ready s) (taken : Settings) : Ready (recordAll s taken) := by
  induction taken generalizing s with
  | nil => exact ready
  | cons t rest ih => exact ih (s := s.record t.1 t.2) ⟨ready.1, rfl⟩

theorem recordAllPositionals (taken : Settings) : (recordAll s taken).positionals = s.positionals := by
  induction taken generalizing s with
  | nil => rfl
  | cons t rest ih => exact ih (s := s.record t.1 t.2)

theorem recordAllAppend (first second : Settings) :
    recordAll s (first ++ second) = recordAll (recordAll s first) second :=
  List.foldl_append

inductive Step (schema : Schema) (s : ArgumentScan) : Text → ArgumentScan → Prop where
  | dashes : Step schema s ['-', '-'] { s with closed := true }
  | sets {word taken} (sets : Sets schema word taken) : Step schema s word (recordAll s taken)
  | opens {word a} (opens : Opens schema word a) : Step schema s word (s.await a.flag a.short)
  | plain {word} (isPlain : Plain word) : Step schema s word (s.addPositional word)

theorem takeLongName {body : Text} (plain : '=' ∉ body) :
    s.takeLong schema body = do
      let f ← ArgumentScan.find schema "--" body
      if f.kind = .boolean then return s.record f (.boolean true) else return s.await f false := by
  unfold ArgumentScan.takeLong
  rw [cutNone.mpr plain]
  refine congrArg (bind _) (funext fun f => ?_)
  cases f.kind <;> rfl

theorem takeLongInline {name : Text} (plain : '=' ∉ name) (typed : Text) :
    s.takeLong schema (name ++ '=' :: typed) = do
      let f ← ArgumentScan.find schema "--" name
      if f.kind = .boolean then throw (.booleanWithValue f.name)
      else return s.record f (← f.cast typed) := by
  unfold ArgumentScan.takeLong
  rw [cutFound plain]
  refine congrArg (bind _) (funext fun f => ?_)
  cases f.kind <;> rfl

theorem takeLongStep {body : Text} (named : body ≠ []) (taken : s.takeLong schema body = .ok next) :
    Step schema s ('-' :: '-' :: body) next := by
  cases cut : Text.cut? '=' body with
  | none =>
    have plain := cutNone.mp cut
    rw [takeLongName plain] at taken
    obtain ⟨f, found, taken⟩ := bindOk.mp taken
    rw [findOk] at found
    split at taken <;> cases taken
    · exact .sets (.long named plain found (by assumption))
    · exact .opens (.long named plain found (by assumption))
  | some parts =>
    obtain ⟨plain, rfl⟩ := cutSome cut
    rw [takeLongInline plain] at taken
    obtain ⟨f, found, taken⟩ := bindOk.mp taken
    rw [findOk] at found
    split at taken
    · cases taken
    · rename_i kind
      obtain ⟨value, cast, same⟩ := bindOk.mp taken
      cases same
      exact .sets (.inline plain found kind cast)

theorem takeShortStep {letter : Char} (short : letter ≠ '-')
    (taken : s.takeShort schema letter = .ok next) : Step schema s ['-', letter] next := by
  obtain ⟨f, found, same⟩ := bindOk.mp taken
  rw [findOk] at found
  cases same
  split
  · rename_i kind
    exact .sets (.letters short (.cons found kind .nil))
  · rename_i kind
    exact .opens (.short short found kind)

theorem takeLetters {group letters : Text}
    (taken : letters.foldlM (ArgumentScan.takeGrouped schema group) s = .ok next) :
    ∃ flags, Switches schema letters flags ∧
      next = recordAll s (flags.map fun f => (f, .boolean true)) := by
  induction letters generalizing s with
  | nil =>
    cases taken
    exact ⟨[], .nil, rfl⟩
  | cons letter rest ih =>
    rw [List.foldlM_cons] at taken
    obtain ⟨between, first, later⟩ := bindOk.mp taken
    obtain ⟨f, found, first⟩ := bindOk.mp first
    rw [findOk] at found
    dsimp only at first
    split at first
    · contradiction
    · rename_i kind
      cases first
      obtain ⟨flags, switches, same⟩ := ih later
      exact ⟨f :: flags, .cons found (by simpa using kind) switches, same⟩

theorem stepRead {word : Text} (ready : Ready s) (step : s.step schema word = .ok next) :
    Step schema s word next := by
  unfold ArgumentScan.step at step
  split at step
  · rename_i closed
    cases ready.1.symm.trans closed
  split at step
  · rename_i waits
    cases ready.2.symm.trans waits
  split at step
  · cases step
    exact .dashes
  · rename_i body more
    exact takeLongStep more step
  · rename_i letter more
    exact takeShortStep more step
  · rename_i short _
    obtain ⟨flags, switches, same⟩ := takeLetters step
    exact same ▸ .sets (.letters short switches)
  · rename_i long _ _ more
    cases step
    refine .plain ?_
    cases word with
    | nil => exact .inr fun rest same => nomatch same
    | cons first rest =>
      by_cases dash : first = '-'
      · subst dash
        cases rest with
        | nil => exact .inl rfl
        | cons second rest => exact absurd rfl (more second rest)
      · exact .inr fun rest same => dash (List.cons.inj same).1

theorem stepLong (ready : Ready s) {body : Text} (named : body ≠ []) :
    s.step schema ('-' :: '-' :: body) = s.takeLong schema body := by
  cases body with
  | nil => contradiction
  | cons first rest => simp [ArgumentScan.step, ready.1, ready.2]

theorem stepShort (ready : Ready s) {letter : Char} (short : letter ≠ '-') :
    s.step schema ['-', letter] = s.takeShort schema letter := by
  simp [ArgumentScan.step, ready.1, ready.2]

theorem takeShortFound {letter : Char} {f : Flag} (found : schema.resolve? [letter] = some f) :
    s.takeShort schema letter =
      .ok (if f.kind = .boolean then s.record f (.boolean true) else s.await f true) := by
  unfold ArgumentScan.takeShort
  rw [findOk.mpr found]
  rfl

theorem lettersTaken {letters : Text} {flags : List Flag} (switches : Switches schema letters flags)
    (group : Text) : letters.foldlM (ArgumentScan.takeGrouped schema group) s =
      .ok (recordAll s (flags.map fun f => (f, .boolean true))) := by
  induction switches generalizing s with
  | nil => rfl
  | @cons letter rest f flags found kind next ih =>
    have first : s.takeGrouped schema group letter = .ok (s.record f (.boolean true)) := by
      unfold ArgumentScan.takeGrouped
      rw [findOk.mpr found]
      simp [bind, Except.bind, kind]
      rfl
    rw [List.foldlM_cons, first]
    exact ih

theorem setsTaken {word : Text} {taken : Settings} (ready : Ready s) (sets : Sets schema word taken) :
    s.step schema word = .ok (recordAll s taken) := by
  cases sets with
  | long named plain found kind =>
    rw [stepLong ready named, takeLongName plain, findOk.mpr found]
    exact if_pos kind
  | @inline name typed f value plain found kind cast =>
    rw [stepLong ready (by simp), takeLongInline plain, findOk.mpr found]
    refine (if_neg kind).trans ?_
    rw [cast]
    rfl
  | @letters first rest flags short switches =>
    cases rest with
    | nil =>
      cases switches with
      | @cons _ _ f _ found kind next =>
        cases next
        rw [stepShort ready short, takeShortFound found, if_pos kind]
        rfl
    | cons second rest =>
      refine Eq.trans ?_ (lettersTaken switches (first :: second :: rest))
      simp [ArgumentScan.step, ready.1, ready.2]

theorem opensTaken {word : Text} {a : Awaiting} (ready : Ready s) (opens : Opens schema word a) :
    s.step schema word = .ok (s.await a.flag a.short) := by
  cases opens with
  | long named plain found kind =>
    rw [stepLong ready named, takeLongName plain, findOk.mpr found]
    exact if_neg kind
  | short short found kind =>
    rw [stepShort ready short, takeShortFound found, if_neg kind]

theorem plainTaken {word : Text} (ready : Ready s) (isPlain : Plain word) :
    s.step schema word = .ok (s.addPositional word) := by
  unfold ArgumentScan.step
  rw [if_neg (by simp [ready.1]), ready.2]
  rcases isPlain with rfl | other
  · rfl
  dsimp only
  split
  · exact absurd rfl (other _)
  · exact absurd rfl (other _)
  · exact absurd rfl (other _)
  · exact absurd rfl (other _)
  · rfl

end Steps

section Scans

variable {schema : Schema} {s : ArgumentScan} {words : List Text} {a : Arguments}

theorem scanCons {word : Text} : scan schema s (word :: words) = .ok a ↔
    ∃ next, s.step schema word = .ok next ∧ scan schema next words = .ok a := by
  unfold scan
  rw [List.foldlM_cons, bind_assoc]
  exact bindOk

theorem scanClosed (closed : s.closed = true) (idle : s.awaiting = none) :
    scan schema s words = .ok (outcome s [] words) := by
  induction words generalizing s with
  | nil =>
    unfold scan outcome recordAll ArgumentScan.finish
    simp [pure, Except.pure, bind, Except.bind, idle]
  | cons word rest ih =>
    refine scanCons.mpr ⟨s.addPositional word, ?_, ?_⟩
    · unfold ArgumentScan.step
      exact if_pos closed
    · rw [ih (s := s.addPositional word) closed idle]
      simp [outcome, recordAll, ArgumentScan.addPositional]

theorem beginsDash {word : Text} : ['-'].isPrefixOf word = true ↔ ∃ rest, word = '-' :: rest := by
  rw [List.isPrefixOf_iff_prefix]
  exact exists_congr fun rest => eq_comm

theorem scanAwaiting (ready : Ready s) (w : Awaiting) :
    scan schema (s.await w.flag w.short) words = .ok a ↔
      ∃ typed rest value, words = typed :: rest ∧ (w.short = true → ∀ rest, typed ≠ '-' :: rest) ∧
        w.flag.cast typed = .ok value ∧ scan schema (s.record w.flag value) rest = .ok a := by
  cases words with
  | nil =>
    refine iff_of_false (fun done => ?_) fun ⟨_, _, _, same, _⟩ => nomatch same
    cases done
  | cons word rest =>
    have step : (s.await w.flag w.short).step schema word =
        (s.await w.flag w.short).takeValue w word := by
      unfold ArgumentScan.step
      exact if_neg (by simp [ArgumentScan.await, ready.1])
    have allowed : (w.short && ['-'].isPrefixOf word) = true ↔
        ¬ (w.short = true → ∀ rest, word ≠ '-' :: rest) := by
      rw [Bool.and_eq_true, beginsDash]
      simp
    rw [scanCons, step]
    unfold ArgumentScan.takeValue
    dsimp only
    constructor
    · rintro ⟨next, taken, later⟩
      split at taken
      · cases taken
      · rename_i fits
        obtain ⟨value, cast, same⟩ := bindOk.mp taken
        cases same
        exact ⟨word, rest, value, rfl, by simpa using (not_congr allowed).mp fits, cast, later⟩
    · rintro ⟨typed, others, value, same, fits, cast, later⟩
      cases same
      refine ⟨s.record w.flag value, ?_, later⟩
      rw [if_neg fun dash => allowed.mp dash fits, cast]
      rfl

theorem outcomeAppend (first later : Settings) (plain : List Text) :
    outcome s (first ++ later) plain = outcome (recordAll s first) later plain := by
  unfold outcome
  rw [recordAllAppend, recordAllPositionals]

theorem outcomePlain (word : Text) (taken : Settings) (plain : List Text) :
    outcome s taken (word :: plain) = outcome (s.addPositional word) taken plain := by
  have flags : ∀ s : ArgumentScan, (recordAll (s.addPositional word) taken).flags =
      (recordAll s taken).flags := by
    induction taken with
    | nil => exact fun _ => rfl
    | cons t rest ih => exact fun s => ih (s.record t.1 t.2)
  unfold outcome
  rw [flags]
  simp [ArgumentScan.addPositional]

theorem scanRead (ready : Ready s) (done : scan schema s words = .ok a) :
    ∃ taken plain, Reads schema words taken plain ∧ a = outcome s taken plain := by
  -- A flag with its value takes two words at once, so the induction is on their number.
  induction length : words.length using Nat.strongRecOn generalizing s words with
  | ind n ih =>
  subst length
  cases words with
  | nil =>
    refine ⟨[], [], .done, ?_⟩
    unfold scan ArgumentScan.finish at done
    simp only [List.foldlM_nil, pure_bind, ready.2] at done
    cases done
    simp [outcome, recordAll]
  | cons word rest =>
    obtain ⟨next, step, later⟩ := scanCons.mp done
    cases stepRead ready step with
    | dashes =>
      cases (scanClosed (s := { s with closed := true }) rfl ready.2).symm.trans later
      exact ⟨[], rest, .dashes rest, rfl⟩
    | @sets _ first sets =>
      obtain ⟨taken, plain, reads, rfl⟩ :=
        ih _ (Nat.lt_succ_self _) (recordAllReady ready first) later rfl
      exact ⟨first ++ taken, plain, .sets sets reads, (outcomeAppend first taken plain).symm⟩
    | @opens _ w opens =>
      obtain ⟨typed, others, value, rfl, fits, cast, behind⟩ := (scanAwaiting ready w).mp later
      have fewer : others.length < (word :: typed :: others).length :=
        Nat.lt_add_of_pos_right Nat.two_pos
      obtain ⟨taken, plain, reads, rfl⟩ :=
        ih _ fewer (s := s.record w.flag value) ⟨ready.1, rfl⟩ behind rfl
      exact ⟨(w.flag, value) :: taken, plain, .value opens fits cast reads,
        (outcomeAppend [(w.flag, value)] taken plain).symm⟩
    | plain isPlain =>
      obtain ⟨taken, plain, reads, rfl⟩ :=
        ih _ (Nat.lt_succ_self _) (s := s.addPositional word) ready later rfl
      exact ⟨taken, word :: plain, .plain isPlain reads, (outcomePlain word taken plain).symm⟩

theorem readScan {taken : Settings} {plain : List Text} (reads : Reads schema words taken plain)
    (ready : Ready s) : scan schema s words = .ok (outcome s taken plain) := by
  induction reads generalizing s with
  | done =>
    unfold scan ArgumentScan.finish
    simp only [List.foldlM_nil, pure_bind, ready.2]
    simp [outcome, recordAll]
  | dashes words =>
    refine scanCons.mpr ⟨{ s with closed := true }, ?_, scanClosed rfl ready.2⟩
    unfold ArgumentScan.step
    rw [if_neg (by simp [ready.1]), ready.2]
    rfl
  | @sets word first words taken plain sets next ih =>
    rw [outcomeAppend]
    exact scanCons.mpr ⟨_, setsTaken ready sets, ih (recordAllReady ready first)⟩
  | @value word w typed value words taken plain opens fits cast next ih =>
    refine scanCons.mpr ⟨_, opensTaken ready opens, (scanAwaiting ready w).mpr ?_⟩
    refine ⟨typed, words, value, rfl, fits, cast, ?_⟩
    rw [ih (s := s.record w.flag value) ⟨ready.1, rfl⟩]
    exact congrArg _ (outcomeAppend [(w.flag, value)] taken plain).symm
  | @plain word words taken plain isPlain next ih =>
    rw [outcomePlain]
    exact scanCons.mpr ⟨_, plainTaken ready isPlain, ih ready⟩

theorem scanned (ready : Ready s) : scan schema s words = .ok a ↔
    ∃ taken plain, Reads schema words taken plain ∧ a = outcome s taken plain := by
  refine ⟨scanRead ready, ?_⟩
  rintro ⟨taken, plain, reads, rfl⟩
  exact readScan reads ready

end Scans

end ConsoleShell.FlagGrammar
