import ConsoleShell.Proofs.StyledLines

/-! Which characters of an escaped text are shown. An entity holds no escape character, but it may stand inside a
sequence: then it loses its ampersand to a lone escape character, or its first letter ends the sequence, and the
rest of it is shown. Text that is shown too early is never caught up with: at the end some of it is left. So a
text comes back as it was exactly if no entity is torn. -/
namespace ConsoleShell.EscapedText
open Markup Render Rendering EscapeGrammar StyledLines

inductive Place where
  | text
  | escape
  | parameters
  deriving DecidableEq, Repr

def placeOf : EscapeState → Place
  | .text => .text
  | .escape => .escape
  | .parameters _ => .parameters

def shownFrom : Place → Text → Text
  | _, [] => []
  | .text, c :: rest => if c = escapeCharacter then shownFrom .escape rest else c :: shownFrom .text rest
  | .escape, c :: rest => if c = '[' then shownFrom .parameters rest else shownFrom .text rest
  | .parameters, c :: rest => if endsSequence c then shownFrom .text rest else shownFrom .parameters rest

def cutting : List Char := ['<', '>', '"', '&']

def torn (c : Char) : Text := ((entity c).dropWhile fun d => !endsSequence d).tail

/- The characters that are shown of the escaped text, with the entities among them read back. -/
def restoredFrom : Place → Text → Text
  | _, [] => []
  | .text, c :: rest => if c = escapeCharacter then restoredFrom .escape rest else c :: restoredFrom .text rest
  | .escape, c :: rest =>
    if c = '[' then restoredFrom .parameters rest else (entity c).tail ++ restoredFrom .text rest
  | .parameters, c :: rest =>
    if endsSequence c then restoredFrom .text rest
    else if c ∈ cutting then torn c ++ restoredFrom .text rest
    else restoredFrom .parameters rest

theorem shownStyled (style : Style) (state : EscapeState) (text : Text) :
    (styledFrom style state text).map Prod.fst = shownFrom (placeOf state) text := by
  have selects : endsSequence 'm' = true := rfl
  fun_induction styledFrom style state text <;> simp_all [placeOf, shownFrom]

theorem shownPlain (text : Text) : (Render.line text).plain = shownFrom .text text := by
  rw [plainSpread, charactersLine, styled, shownStyled, placeOf]

theorem shownCalm {chunk : Text} (calm : escapeCharacter ∉ chunk) (rest : Text) :
    shownFrom .text (chunk ++ rest) = chunk ++ shownFrom .text rest := by
  induction chunk with
  | nil => rfl
  | cons c later ih =>
    obtain ⟨other, calm⟩ : escapeCharacter ≠ c ∧ escapeCharacter ∉ later := by simpa using calm
    rw [List.cons_append, shownFrom, if_neg other.symm, ih calm]
    rfl

theorem shownRuns {chunk : Text} (runs : ∀ c ∈ chunk, endsSequence c = false) (rest : Text) :
    shownFrom .parameters (chunk ++ rest) = shownFrom .parameters rest := by
  induction chunk with
  | nil => rfl
  | cons c later ih =>
    obtain ⟨going, runs⟩ := List.forall_mem_cons.mp runs
    rw [List.cons_append, shownFrom, if_neg (by simp [going]), ih runs]

theorem escapeCons (c : Char) (rest : Text) : escape (c :: rest) = entity c ++ escape rest := rfl

theorem escapeAppend (a b : Text) : escape (a ++ b) = escape a ++ escape b := List.flatMap_append

theorem escapeOrdinary {text : Text} (ordinary : ∀ c ∈ text, c ∉ special) : escape text = text := by
  induction text with
  | nil => rfl
  | cons c rest ih =>
    obtain ⟨first, later⟩ := List.forall_mem_cons.mp ordinary
    rw [escapeCons, entityPlain first, ih later]
    rfl

theorem cutsOrApostrophe {c : Char} (listed : c ∈ special) : c ∈ cutting ∨ c = '\'' := by
  revert listed
  simp only [cutting, special, List.mem_cons, List.not_mem_nil, or_false]
  tauto

theorem specialRuns : ∀ c ∈ special, endsSequence c = false := by
  apply eachSpecial <;> decide

theorem entityCalm {c : Char} (ordinary : c ≠ escapeCharacter) : escapeCharacter ∉ entity c := by
  by_cases listed : c ∈ special
  · exact (entitiesCalm _ (entityListed c listed)).2
  · simpa [entityPlain listed] using ordinary.symm

theorem entityWhole (c : Char) : ∃ first, entity c = first :: (entity c).tail ∧ (first = '[' ↔ c = '[') := by
  by_cases listed : c ∈ special
  · have other : ∀ c ∈ special, c ≠ '[' := by apply eachSpecial <;> decide
    exact ⟨'&', entityHead c listed, by simp [other c listed]⟩
  · exact ⟨c, by simp [entityPlain listed], Iff.rfl⟩

theorem tailInert (c : Char) : escapeCharacter ∉ (entity c).tail ∧ ∀ d ∈ (entity c).tail, d ∉ special := by
  by_cases listed : c ∈ special
  · have all : ∀ c ∈ special, escapeCharacter ∉ (entity c).tail ∧
        ((entity c).tail.all fun d => d ∉ special) = true := by
      apply eachSpecial <;> decide
    simpa using all c listed
  · simp [entityPlain listed]

theorem tornSuffix (c : Char) : torn c <:+ (entity c).tail := by
  obtain ⟨first, whole, -⟩ := entityWhole c
  have dropped : (entity c).dropWhile (fun d => !endsSequence d) <:+ first :: (entity c).tail :=
    whole ▸ List.dropWhile_suffix _
  rcases List.suffix_cons_iff.mp dropped with same | inside
  · rw [torn, same]
    exact List.suffix_refl _
  · exact (List.tail_suffix _).trans inside

theorem shownTorn {c : Char} (cuts : c ∈ cutting) (rest : Text) :
    shownFrom .parameters (entity c ++ rest) = shownFrom .text (torn c ++ rest) := by
  simp only [cutting, List.mem_cons, List.not_mem_nil, or_false] at cuts
  rcases cuts with rfl | rfl | rfl | rfl <;> rfl

theorem entityRuns {c : Char} (runs : endsSequence c = false) (kept : c ∉ cutting) :
    ∀ d ∈ entity c, endsSequence d = false := by
  by_cases listed : c ∈ special
  · obtain rfl : c = '\'' := (cutsOrApostrophe listed).resolve_left kept
    have spelled : entity '\'' = ['&', '#', '3', '9', ';'] := rfl
    simp [spelled, endsSequence]
  · simpa [entityPlain listed] using runs

theorem shownEscaped (place : Place) (text : Text) :
    shownFrom place (escape text) = escape (restoredFrom place text) := by
  induction text generalizing place with
  | nil => cases place <;> rfl
  | cons c rest ih =>
    rw [escapeCons]
    have tail := (tailInert c).1
    have left : escape (entity c).tail = (entity c).tail := escapeOrdinary (tailInert c).2
    cases place with
    | text =>
      rw [restoredFrom]
      split
      · rename_i begins
        subst begins
        exact ih .escape
      · rename_i ordinary
        rw [shownCalm (entityCalm ordinary), ih, escapeCons]
    | escape =>
      obtain ⟨first, whole, bracket⟩ := entityWhole c
      rw [whole, List.cons_append, shownFrom, restoredFrom]
      by_cases opens : c = '['
      · have single : (entity c).tail = [] := by rw [opens]; rfl
        rw [if_pos (bracket.mpr opens), if_pos opens, single, List.nil_append, ih]
      · rw [if_neg (mt bracket.mp opens), if_neg opens, shownCalm tail, ih, escapeAppend, left]
    | parameters =>
      rw [restoredFrom]
      split
      · rename_i ends
        have plain : c ∉ special := fun listed => by simp [specialRuns c listed] at ends
        rw [entityPlain plain, List.singleton_append, shownFrom, if_pos ends, ih]
      · rename_i runs
        split
        · rename_i cuts
          have within := (tornSuffix c).subset
          have calm : escapeCharacter ∉ torn c := fun mem => tail (within mem)
          have same : escape (torn c) = torn c :=
            escapeOrdinary fun d mem => (tailInert c).2 d (within mem)
          rw [shownTorn cuts, shownCalm calm, ih, escapeAppend, same]
        · rename_i kept
          rw [shownRuns (entityRuns (by simpa using runs) kept), ih]

theorem restoredLine (text : Text) : unescape (Render.line (escape text)).plain = restoredFrom .text text := by
  rw [shownPlain, shownEscaped, unescapeEscape]

def Deep (lag : Text) : Prop := ∃ before c after, lag = before ++ c :: after ∧ endsSequence c = true ∧ after ≠ []

variable {lag more : Text} {c : Char}

theorem deepSome (deep : Deep lag) : lag ≠ [] := by
  obtain ⟨before, c, after, rfl, -, -⟩ := deep
  simp

theorem deepAppend (deep : Deep lag) (more : Text) : Deep (lag ++ more) := by
  obtain ⟨before, c, after, rfl, ends, nonempty⟩ := deep
  exact ⟨before, c, after ++ more, by simp, ends, by simp [nonempty]⟩

theorem appendDeep (lag : Text) (deep : Deep more) : Deep (lag ++ more) := by
  obtain ⟨before, c, after, rfl, ends, nonempty⟩ := deep
  exact ⟨lag ++ before, c, after, by simp, ends, nonempty⟩

theorem deepRest (deep : Deep (c :: lag)) : lag ≠ [] := by
  obtain ⟨before, d, after, whole, -, nonempty⟩ := deep
  cases before with
  | nil =>
    obtain ⟨-, rfl⟩ := List.cons_eq_cons.mp whole
    exact nonempty
  | cons first before =>
    obtain ⟨-, rfl⟩ := List.cons_eq_cons.mp whole
    simp

theorem deepTail (deep : Deep (c :: lag)) (runs : endsSequence c = false) : Deep lag := by
  obtain ⟨before, d, after, whole, ends, nonempty⟩ := deep
  cases before with
  | nil =>
    obtain ⟨rfl, -⟩ := List.cons_eq_cons.mp whole
    simp [ends] at runs
  | cons first before =>
    obtain ⟨-, rfl⟩ := List.cons_eq_cons.mp whole
    exact ⟨before, d, after, rfl, ends, nonempty⟩

theorem tornDeep (cuts : c ∈ cutting) : Deep (torn c) := by
  simp only [cutting, List.mem_cons, List.not_mem_nil, or_false] at cuts
  rcases cuts with rfl | rfl | rfl | rfl
  · exact ⟨[], 't', [';'], rfl, rfl, by simp⟩
  · exact ⟨[], 't', [';'], rfl, rfl, by simp⟩
  · exact ⟨['u', 'o'], 't', [';'], rfl, rfl, by simp⟩
  · exact ⟨['m'], 'p', [';'], rfl, rfl, by simp⟩

/- Where the two readings can stand when the escaped text has shown `lag` too early: in one place, or with the
one inside a sequence that has ended for the other or has not begun for it. -/
inductive Ahead : Place → Place → Text → Prop where
  | level {place : Place} {lag : Text} (nonempty : lag ≠ []) : Ahead place place lag
  | ended {lag : Text} (deep : Deep lag) : Ahead .parameters .text lag
  | endedBegins {lag : Text} (deep : Deep lag) : Ahead .parameters .escape lag
  | later {lag : Text} (deep : Deep lag) : Ahead .text .parameters lag
  | laterBegins {lag : Text} (deep : Deep lag) : Ahead .escape .parameters lag

def CatchesUp (text : Text) : Prop :=
  ∃ place other lag, Ahead place other lag ∧ shownFrom place text = lag ++ restoredFrom other text

variable {place other : Place} {rest : Text}

theorem aheadSome (ahead : Ahead place other lag) : lag ≠ [] := by
  cases ahead with
  | level some => exact some
  | ended deep | endedBegins deep | later deep | laterBegins deep => exact deepSome deep

theorem levelStep (nonempty : lag ≠ []) (same : shownFrom place (c :: rest) = lag ++ restoredFrom place (c :: rest)) :
    CatchesUp rest := by
  cases place with
  | text =>
    rw [shownFrom, restoredFrom] at same
    split at same
    · exact ⟨.escape, .escape, lag, .level nonempty, same⟩
    · obtain ⟨first, behind, rfl⟩ := List.exists_cons_of_ne_nil nonempty
      obtain ⟨-, same⟩ := List.cons_eq_cons.mp same
      exact ⟨.text, .text, behind ++ [c], .level (by simp), by simpa using same⟩
  | escape =>
    rw [shownFrom, restoredFrom] at same
    split at same
    · exact ⟨.parameters, .parameters, lag, .level nonempty, same⟩
    · exact ⟨.text, .text, lag ++ (entity c).tail, .level (by simp [nonempty]), by simpa using same⟩
  | parameters =>
    rw [shownFrom, restoredFrom] at same
    split at same
    · exact ⟨.text, .text, lag, .level nonempty, same⟩
    · split at same
      · rename_i cuts
        exact ⟨.parameters, .text, lag ++ torn c, .ended (appendDeep lag (tornDeep cuts)), by simpa using same⟩
      · exact ⟨.parameters, .parameters, lag, .level nonempty, same⟩

theorem endedStep (deep : Deep lag)
    (same : shownFrom .parameters (c :: rest) = lag ++ restoredFrom .text (c :: rest)) : CatchesUp rest := by
  rw [shownFrom, restoredFrom] at same
  by_cases begins : c = escapeCharacter
  · subst begins
    exact ⟨.parameters, .escape, lag, .endedBegins deep, same⟩
  · rw [if_neg begins] at same
    split at same
    · exact ⟨.text, .text, lag ++ [c], .level (by simp), by simpa using same⟩
    · exact ⟨.parameters, .text, lag ++ [c], .ended (deepAppend deep [c]), by simpa using same⟩

theorem endedBeginsStep (deep : Deep lag)
    (same : shownFrom .parameters (c :: rest) = lag ++ restoredFrom .escape (c :: rest)) : CatchesUp rest := by
  rw [shownFrom, restoredFrom] at same
  by_cases bracket : c = '['
  · subst bracket
    exact ⟨.text, .parameters, lag, .later deep, same⟩
  · rw [if_neg bracket] at same
    split at same
    · exact ⟨.text, .text, lag ++ (entity c).tail, .level (by simp [deepSome deep]), by simpa using same⟩
    · exact ⟨.parameters, .text, lag ++ (entity c).tail, .ended (deepAppend deep _), by simpa using same⟩

/- Only here the lag becomes shorter, by a character that is shown while the escaped text is in a sequence. -/
theorem laterStep (deep : Deep lag)
    (same : shownFrom .text (c :: rest) = lag ++ restoredFrom .parameters (c :: rest)) : CatchesUp rest := by
  rw [shownFrom, restoredFrom] at same
  by_cases begins : c = escapeCharacter
  · subst begins
    exact ⟨.escape, .parameters, lag, .laterBegins deep, same⟩
  · rw [if_neg begins] at same
    obtain ⟨first, behind, rfl⟩ := List.exists_cons_of_ne_nil (deepSome deep)
    obtain ⟨rfl, tails⟩ := List.cons_eq_cons.mp same
    have nonempty := deepRest deep
    split at tails
    · exact ⟨.text, .text, behind, .level nonempty, tails⟩
    · rename_i runs
      split at tails
      · exact ⟨.text, .text, behind ++ torn c, .level (by simp [nonempty]), by simpa using tails⟩
      · exact ⟨.text, .parameters, behind, .later (deepTail deep (by simpa using runs)), tails⟩

theorem laterBeginsStep (deep : Deep lag)
    (same : shownFrom .escape (c :: rest) = lag ++ restoredFrom .parameters (c :: rest)) : CatchesUp rest := by
  rw [shownFrom, restoredFrom] at same
  by_cases bracket : c = '['
  · subst bracket
    exact ⟨.parameters, .text, lag, .ended deep, same⟩
  · rw [if_neg bracket] at same
    split at same
    · exact ⟨.text, .text, lag, .level (deepSome deep), same⟩
    · split at same
      · exact ⟨.text, .text, lag ++ torn c, .level (by simp [deepSome deep]), by simpa using same⟩
      · exact ⟨.text, .parameters, lag, .later deep, same⟩

theorem aheadStep (ahead : Ahead place other lag)
    (same : shownFrom place (c :: rest) = lag ++ restoredFrom other (c :: rest)) : CatchesUp rest := by
  cases ahead with
  | level some => exact levelStep some same
  | ended deep => exact endedStep deep same
  | endedBegins deep => exact endedBeginsStep deep same
  | later deep => exact laterStep deep same
  | laterBegins deep => exact laterBeginsStep deep same

theorem neverCaughtUp (text : Text) : ¬ CatchesUp text := by
  induction text with
  | nil =>
    rintro ⟨place, other, lag, ahead, same⟩
    have nothing : lag = [] := by
      cases place <;> cases other <;> simpa [shownFrom, restoredFrom] using same
    exact aheadSome ahead nothing
  | cons c rest ih =>
    rintro ⟨place, other, lag, ahead, same⟩
    exact ih (aheadStep ahead same)

def PieceWhole : Piece → Prop
  | .shown _ _ => True
  | .lone selector _ => selector ∉ special
  | .sequence body _ _ _ => ∀ c ∈ body, c ∉ cutting

def TailWhole : Tail → Prop
  | .none | .escape => True
  | .parameters body _ => ∀ c ∈ body, c ∉ cutting

theorem restoredRuns {body : Text} (runs : ∀ c ∈ body, endsSequence c = false) (kept : ∀ c ∈ body, c ∉ cutting)
    (rest : Text) : restoredFrom .parameters (body ++ rest) = restoredFrom .parameters rest := by
  induction body with
  | nil => rfl
  | cons c later ih =>
    obtain ⟨going, runs⟩ := List.forall_mem_cons.mp runs
    obtain ⟨first, kept⟩ := List.forall_mem_cons.mp kept
    rw [List.cons_append, restoredFrom, if_neg (by simp [going]), if_neg first, ih runs kept]

theorem restoredTorn {body : Text} (runs : ∀ c ∈ body, endsSequence c = false)
    (cut : ¬ ∀ c ∈ body, c ∉ cutting) (rest : Text) :
    shownFrom .parameters (body ++ rest) ≠ restoredFrom .parameters (body ++ rest) := by
  induction body with
  | nil => simp at cut
  | cons c later ih =>
    obtain ⟨going, runs⟩ := List.forall_mem_cons.mp runs
    rw [List.cons_append, shownFrom, restoredFrom, if_neg (by simp [going]), if_neg (by simp [going])]
    by_cases cuts : c ∈ cutting
    · rw [if_pos cuts]
      exact fun same => neverCaughtUp _ ⟨_, _, _, .ended (tornDeep cuts), same⟩
    · rw [if_neg cuts]
      exact ih runs fun kept => cut (List.forall_mem_cons.mpr ⟨cuts, kept⟩)

/- A lone escape character leaves all of an entity but its ampersand. -/
theorem keptLone {selector : Char} (alone : selector ≠ '[') (rest : Text) :
    shownFrom .text (escapeCharacter :: selector :: rest) =
        restoredFrom .text (escapeCharacter :: selector :: rest) ↔
      selector ∉ special ∧ shownFrom .text rest = restoredFrom .text rest := by
  have shown : shownFrom .text (escapeCharacter :: selector :: rest) = shownFrom .text rest := by
    simp [shownFrom, alone]
  have restored : restoredFrom .text (escapeCharacter :: selector :: rest) =
      (entity selector).tail ++ restoredFrom .text rest := by
    simp [restoredFrom, alone]
  rw [shown, restored]
  by_cases listed : selector ∈ special
  · have nonempty : ∀ c ∈ special, (entity c).tail ≠ [] := by apply eachSpecial <;> decide
    have differs : shownFrom .text rest ≠ (entity selector).tail ++ restoredFrom .text rest :=
      fun same => neverCaughtUp rest ⟨_, _, _, .level (nonempty selector listed), same⟩
    simp [listed, differs]
  · simp [listed, entityPlain listed]

theorem keptSequence {body : Text} {final : Char} (runs : ∀ c ∈ body, endsSequence c = false)
    (ends : endsSequence final = true) (rest : Text) :
    shownFrom .parameters (body ++ final :: rest) = restoredFrom .parameters (body ++ final :: rest) ↔
      (∀ c ∈ body, c ∉ cutting) ∧ shownFrom .text rest = restoredFrom .text rest := by
  by_cases kept : ∀ c ∈ body, c ∉ cutting
  · rw [shownRuns runs, restoredRuns runs kept, shownFrom, restoredFrom, if_pos ends, if_pos ends]
    exact (and_iff_right kept).symm
  · simp only [kept, false_and, iff_false]
    exact restoredTorn runs kept (final :: rest)

theorem keptPiece (piece : Piece) (rest : Text) :
    shownFrom .text (piece.text ++ rest) = restoredFrom .text (piece.text ++ rest) ↔
      PieceWhole piece ∧ shownFrom .text rest = restoredFrom .text rest := by
  cases piece with
  | shown c ordinary => simp [Piece.text, shownFrom, restoredFrom, ordinary, PieceWhole]
  | lone selector alone => exact keptLone alone rest
  | sequence body final runs ends =>
    have text : (Piece.sequence body final runs ends).text ++ rest =
        escapeCharacter :: '[' :: (body ++ final :: rest) := by
      simp [Piece.text]
    rw [text]
    exact keptSequence runs ends rest

theorem keptTail (tail : Tail) :
    shownFrom .text tail.text = restoredFrom .text tail.text ↔ TailWhole tail := by
  cases tail with
  | none => simp [Tail.text, shownFrom, restoredFrom, TailWhole]
  | escape => simp [Tail.text, shownFrom, restoredFrom, TailWhole]
  | parameters body runs =>
    show shownFrom .parameters body = restoredFrom .parameters body ↔ ∀ c ∈ body, c ∉ cutting
    by_cases kept : ∀ c ∈ body, c ∉ cutting
    · have shown := shownRuns runs []
      have restored := restoredRuns runs kept []
      rw [List.append_nil] at shown restored
      exact iff_of_true (shown.trans restored.symm) kept
    · have differs := restoredTorn runs kept []
      rw [List.append_nil] at differs
      exact iff_of_false differs kept

theorem keptRead (pieces : List Piece) (tail : Tail) :
    shownFrom .text (written pieces ++ tail.text) = restoredFrom .text (written pieces ++ tail.text) ↔
      (∀ p ∈ pieces, PieceWhole p) ∧ TailWhole tail := by
  induction pieces with
  | nil => simpa using keptTail tail
  | cons piece later ih => rw [writtenCons, List.append_assoc, keptPiece, ih, List.forall_mem_cons, and_assoc]

def Untorn (text : Text) : Prop :=
  ∃ pieces tail, text = written pieces ++ Tail.text tail ∧ (∀ p ∈ pieces, PieceWhole p) ∧ TailWhole tail

theorem restoredIff (text : Text) :
    unescape (Render.line (escape text)).plain = (Render.line text).plain ↔ Untorn text := by
  rw [restoredLine, shownPlain, eq_comm]
  constructor
  · intro same
    obtain ⟨pieces, tail, rfl⟩ := readText text
    exact ⟨pieces, tail, rfl, (keptRead pieces tail).mp same⟩
  · rintro ⟨pieces, tail, rfl, whole⟩
    exact (keptRead pieces tail).mpr whole

end ConsoleShell.EscapedText
