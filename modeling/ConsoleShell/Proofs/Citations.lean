import ConsoleShell.Failure
import ConsoleShell.Proofs.Basic
import ConsoleShell.Proofs.FlagParsing

/-! What the errors of a line cite. Many errors show the text that was not understood, and where the words of
a line are read as flags that text is a word or part of one: the name or the value on either side of an
equals sign, or the letters behind a dash. Everything else in such an error is spelled by the declarations. -/
namespace ConsoleShell.Citations
open FlagGrammar

def citedFlag : FlagError → List Text
  | .unknownFlag typed => [typed]
  | .invalidNumber _ value => [value]
  | .invalidChoice _ value _ => [value]
  | .groupedNonBoolean letter group => [letter, group]
  | _ => []

def citedFailure : Failure → List Text
  | .job (.invalidId typed) => [typed]
  | .unknownColor text | .invalidDuration text | .invalidDice text | .invalidVariableName text
  | .noSuchVariable text | .invalidAliasName text | .aliasWithoutTarget text | .noSuchAlias text
  | .noHelp text | .neitherOnNorOff text => [text]
  | _ => []

/- The texts that an error about arguments shows, as it shows them. -/
def cited : LineError → List Text
  | .arguments error => citedFlag error
  | .command _ failure => citedFailure failure
  | _ => []

inductive Quoted (word : Text) : Text → Prop where
  | whole : Quoted word word
  | before {name value} (cut : word = name ++ '=' :: value) : Quoted word name
  | behind {name value} (cut : word = name ++ '=' :: value) : Quoted word value
  | letters {group} (cluster : word = '-' :: group) : Quoted word group
  | letter {group c} (cluster : word = '-' :: group) (mem : c ∈ group) : Quoted word [c]
  | dashed {group c} (cluster : word = '-' :: group) (mem : c ∈ group) : Quoted word ['-', c]

variable {word q : Text}

theorem quotedMember (quoted : Quoted word q) : ∀ c ∈ q, c ∈ word := by
  cases quoted with
  | whole => exact fun c mem => mem
  | before cut => simp +contextual [cut]
  | behind cut => simp +contextual [cut]
  | letters cluster => simp +contextual [cluster]
  | letter cluster mem => simp [cluster, mem]
  | dashed cluster mem => simp [cluster, mem]

theorem shownLast (before : Text) : q <:+: before ++ q := (List.suffix_append before q).isInfix

theorem shownBehind {text : Text} (shown : q <:+: text) (after : Text) : q <:+: text ++ after :=
  shown.trans (List.prefix_append text after).isInfix

theorem shownBefore {text : Text} (shown : q <:+: text) (before : Text) : q <:+: before ++ text :=
  shown.trans (List.suffix_append before text).isInfix

theorem flagWithin {e : FlagError} (mem : q ∈ citedFlag e) : q <:+: e.message := by
  cases e with
  | unknownFlag typed =>
    cases List.mem_singleton.mp mem
    exact shownBehind (shownLast _) _
  | invalidNumber flag value =>
    cases List.mem_singleton.mp mem
    exact shownBehind (shownLast _) _
  | invalidChoice flag value allowed =>
    cases List.mem_singleton.mp mem
    exact shownBehind (shownBehind (shownBehind (shownLast _) _) _) _
  | groupedNonBoolean letter group =>
    rcases List.mem_cons.mp mem with rfl | mem
    · exact shownBehind (shownBehind (shownBehind (shownLast _) _) _) _
    · cases List.mem_singleton.mp mem
      exact shownBehind (shownLast _) _
  | _ => cases mem

theorem failureWithin {f : Failure} (mem : q ∈ citedFailure f) : q <:+: f.message := by
  cases f with
  | job error =>
    cases error with
    | notFound id => cases mem
    | invalidId typed =>
      cases List.mem_singleton.mp mem
      exact shownBehind (shownLast _) _
  | noSuchVariable | noSuchAlias =>
    cases List.mem_singleton.mp mem
    exact (List.prefix_append _ _).isInfix
  | unknownColor | invalidDuration | invalidDice | invalidVariableName | invalidAliasName | aliasWithoutTarget
  | noHelp | neitherOnNorOff =>
    cases List.mem_singleton.mp mem
    exact shownBehind (shownLast _) _
  | _ => cases mem

theorem citedWithin {e : LineError} (mem : q ∈ cited e) : q <:+: e.message := by
  cases e with
  | arguments error => exact flagWithin mem
  | command name failure => exact shownBefore (failureWithin mem) _
  | words | commandNotFound => cases mem

theorem bindFails {ε α β : Type} {x : Except ε α} {f : α → Except ε β} {e : ε} :
    x >>= f = .error e ↔ x = .error e ∨ ∃ a, x = .ok a ∧ f a = .error e := by
  cases x with
  | error other => simp [bind, Except.bind]
  | ok a => simp [bind, Except.bind]

theorem foldedFails {ε σ α : Type} {P : σ → Prop} {f : σ → α → Except ε σ} {items : List α} {s : σ}
    {e : ε} (keeps : ∀ s a next, f s a = .ok next → P s → P next) (failed : items.foldlM f s = .error e)
    (h : P s) : ∃ a ∈ items, ∃ t, P t ∧ f t a = .error e := by
  induction items generalizing s with
  | nil => cases failed
  | cons a rest ih =>
    rw [List.foldlM_cons] at failed
    rcases bindFails.mp failed with here | ⟨next, first, later⟩
    · exact ⟨a, List.mem_cons_self, s, h, here⟩
    · obtain ⟨b, mem, found⟩ := ih later (keeps s a next first h)
      exact ⟨b, List.mem_cons_of_mem _ mem, found⟩

/- Errors that are about a word, with what else they spell. -/
inductive Blames (schema : Schema) (word : Text) : FlagError → Prop where
  | unknown {typed} (quoted : Quoted word typed) : Blames schema word (.unknownFlag typed)
  | number {f value} (listed : f ∈ schema.flags) (quoted : Quoted word value) :
      Blames schema word (.invalidNumber f.name value)
  | choice {f value allowed} (listed : f ∈ schema.flags) (choices : f.choices = some allowed)
      (quoted : Quoted word value) : Blames schema word (.invalidChoice f.name value allowed)
  | grouped {group c} (cluster : word = '-' :: group) (mem : c ∈ group) :
      Blames schema word (.groupedNonBoolean [c] group)

section Words

variable {schema : Schema} {s next : ArgumentScan} {e : FlagError} {f : Flag} {typed : Text}

theorem castBlames (listed : f ∈ schema.flags) (quoted : Quoted word typed) (failed : f.cast typed = .error e) :
    Blames schema word e := by
  unfold Flag.cast at failed
  split at failed
  · split at failed
    · cases failed
    · rename_i choices
      split at failed
      · cases failed
      · cases failed
        exact .choice listed choices quoted
  · split at failed
    · cases failed
    · cases failed
      exact .number listed quoted
  · cases failed

theorem findBlames {dashes name : Text} (quoted : Quoted word (dashes ++ name))
    (failed : ArgumentScan.find schema dashes name = .error e) : Blames schema word e := by
  unfold ArgumentScan.find at failed
  split at failed
  · cases failed
  · cases failed
    exact .unknown quoted

theorem takeValueBlames {a : Awaiting} (listed : a.flag ∈ schema.flags)
    (failed : s.takeValue a word = .error e) : citedFlag e = [] ∨ Blames schema word e := by
  unfold ArgumentScan.takeValue at failed
  dsimp only at failed
  split at failed
  · cases failed
    exact .inl rfl
  · rcases bindFails.mp failed with cast | ⟨value, -, done⟩
    · exact .inr (castBlames listed .whole cast)
    · cases done

theorem takeLongBlames {body : Text} (failed : s.takeLong schema body = .error e) :
    citedFlag e = [] ∨ Blames schema ('-' :: '-' :: body) e := by
  cases cut : Text.cut? '=' body with
  | none =>
    rw [takeLongName (cutNone.mp cut)] at failed
    rcases bindFails.mp failed with unknown | ⟨f, -, taken⟩
    · exact .inr (findBlames .whole unknown)
    · split at taken <;> cases taken
  | some parts =>
    obtain ⟨plain, rfl⟩ := cutSome cut
    rw [takeLongInline plain] at failed
    rcases bindFails.mp failed with unknown | ⟨f, found, taken⟩
    · exact .inr (findBlames (.before rfl) unknown)
    · split at taken
      · cases taken
        exact .inl rfl
      · rcases bindFails.mp taken with cast | ⟨value, -, done⟩
        · have listed := FlagParsing.resolveListed (findOk.mp found)
          have whole : '-' :: '-' :: (parts.1 ++ '=' :: parts.2) = ('-' :: '-' :: parts.1) ++ '=' :: parts.2 := rfl
          exact .inr (castBlames listed (.behind whole) cast)
        · cases done

theorem takeShortBlames {letter : Char} (failed : s.takeShort schema letter = .error e) :
    Blames schema ['-', letter] e := by
  rcases bindFails.mp failed with unknown | ⟨f, -, done⟩
  · exact findBlames .whole unknown
  · cases done

theorem takeGroupedBlames {group : Text} {letter : Char} (mem : letter ∈ group)
    (failed : ArgumentScan.takeGrouped schema group s letter = .error e) : Blames schema ('-' :: group) e := by
  rcases bindFails.mp failed with unknown | ⟨f, -, taken⟩
  · exact findBlames (.dashed rfl mem) unknown
  · dsimp only at taken
    split at taken
    · cases taken
      exact .grouped rfl mem
    · cases taken

theorem stepBlames (listed : ∀ a, s.awaiting = some a → a.flag ∈ schema.flags)
    (failed : s.step schema word = .error e) : citedFlag e = [] ∨ Blames schema word e := by
  unfold ArgumentScan.step at failed
  split at failed
  · cases failed
  · split at failed
    · rename_i a waits
      exact takeValueBlames (listed a waits) failed
    · split at failed
      · cases failed
      · exact takeLongBlames failed
      · exact .inr (takeShortBlames failed)
      · rename_i first rest _ _
        obtain ⟨letter, mem, t, -, stopped⟩ :=
          foldedFails (P := fun _ => True) (fun _ _ _ _ _ => trivial) failed trivial
        exact .inr (takeGroupedBlames mem stopped)
      · cases failed

theorem stepListed (step : s.step schema word = .ok next)
    (listed : ∀ a, s.awaiting = some a → a.flag ∈ schema.flags) :
    ∀ a, next.awaiting = some a → a.flag ∈ schema.flags := by
  by_cases ready : Ready s
  · cases stepRead ready step with
    | dashes => exact listed
    | sets sets =>
      intro a waits
      rw [(recordAllReady ready _).2] at waits
      cases waits
    | opens opens =>
      intro a waits
      cases waits
      exact (FlagParsing.opensProper opens).1
    | plain isPlain => exact listed
  · unfold ArgumentScan.step at step
    split at step
    · cases step
      exact listed
    · rename_i isOpen
      split at step
      · unfold ArgumentScan.takeValue at step
        dsimp only at step
        split at step
        · cases step
        · obtain ⟨value, -, same⟩ := bindOk.mp step
          cases same
          exact fun a waits => nomatch waits
      · rename_i idle
        exact absurd ⟨Bool.eq_false_iff.mpr isOpen, idle⟩ ready

theorem checkSilent {declared : List Positional} {a : Arguments}
    (failed : Arguments.check schema declared a = .error e) : citedFlag e = [] := by
  have broken {flags : List Flag} (found : a.brokenFlagRule? flags = some e) : citedFlag e = [] := by
    rcases Option.or_eq_some_iff.mp found with missing | ⟨-, rivals⟩
    · obtain ⟨f, -, raised⟩ := List.exists_of_findSome?_eq_some missing
      split at raised <;> cases raised
      rfl
    · obtain ⟨f, -, raised⟩ := List.exists_of_findSome?_eq_some rivals
      split at raised
      · cases raised
        rfl
      · split at raised <;> cases raised
        rfl
  have missing {flags : List Flag} (found : a.missingPositional? flags declared = some e) : citedFlag e = [] := by
    unfold Arguments.missingPositional? at found
    split at found
    · cases found
    · obtain ⟨p, -, raised⟩ := List.exists_of_findSome?_eq_some found
      split at raised <;> cases raised
      rfl
  unfold Arguments.check at failed
  split at failed
  · rename_i found
    cases failed
    rcases Option.or_eq_some_iff.mp found with rule | ⟨-, absent⟩
    · exact broken rule
    · exact missing absent
  · cases failed

theorem parseBlames {declared : List Positional} {words : List Text}
    (failed : Arguments.parse schema declared words = .error e) :
    citedFlag e = [] ∨ ∃ word ∈ words, Blames schema word e := by
  rcases bindFails.mp failed with stopped | ⟨scan, -, failed⟩
  · have kept := foldedFails (P := fun s => ∀ a, s.awaiting = some a → a.flag ∈ schema.flags)
      (fun _ _ _ step listed => stepListed step listed) stopped (fun a waits => nomatch waits)
    obtain ⟨word, mem, t, listed, here⟩ := kept
    exact (stepBlames listed here).imp_right fun blames => ⟨word, mem, blames⟩
  · rcases bindFails.mp failed with waiting | ⟨a, -, checked⟩
    · unfold ArgumentScan.finish at waiting
      split at waiting <;> cases waiting
      exact .inl rfl
    · exact .inl (checkSilent checked)

theorem blamesQuoted (blames : Blames schema word e) {q : Text} (mem : q ∈ citedFlag e) : Quoted word q := by
  cases blames with
  | unknown quoted | number listed quoted | choice listed choices quoted =>
    cases List.mem_singleton.mp mem
    exact quoted
  | grouped cluster inside =>
    rcases List.mem_cons.mp mem with rfl | mem
    · exact .letter cluster inside
    · cases List.mem_singleton.mp mem
      exact .letters cluster

end Words

end ConsoleShell.Citations
