import ConsoleShell.Proofs.Reference

/-! The expansion of a line and the splitting into words that follows it. The two scans are
related character by character. Where a value is put in no backslash waits for its character, and
a shielded value leaves the splitting exactly where it stood; so the line as it is typed decides
which quotes are open where, whether it can be split at all, and which word a value belongs to. -/
namespace ConsoleShell.Expansion
open Token Variable

/- Where the splitting of a line stands between two characters. The scan itself reads a backslash
together with the character behind it, so it never stands in the middle of such a pair; a mode
does, and can therefore be followed through a line one character at a time. -/
structure Mode where
  quote : Option Char := none
  escaped : Bool := false
  deriving DecidableEq, Repr

namespace Mode

def next (m : Mode) (c : Char) : Mode :=
  if m.escaped then { m with escaped := false }
  else if c = '\\' then { m with escaped := true }
  else if m.quote = some c then { m with quote := none }
  else if m.quote.isNone && isQuote c then { m with quote := some c }
  else m

def after (m : Mode) (text : Text) : Mode := text.foldl next m

def ending (m : Mode) : Except TokenError Unit :=
  if m.escaped then .error .strayBackslash
  else if m.quote.isSome then .error .unterminatedQuote
  else .ok ()

def Proper (m : Mode) : Prop := ∀ q, m.quote = some q → isQuote q = true

theorem afterCons (m : Mode) (c : Char) (rest : Text) : m.after (c :: rest) = (m.next c).after rest :=
  rfl

theorem afterAppend (m : Mode) (a b : Text) : m.after (a ++ b) = (m.after a).after b := by
  simp [after]

theorem nextProper {m : Mode} (proper : m.Proper) (c : Char) : (m.next c).Proper := by
  unfold next
  split
  · exact proper
  · split
    · exact proper
    · split
      · intro q open'
        contradiction
      · split
        · rename_i isOpen
          intro q open'
          cases Option.some.inj open'
          exact (Bool.and_eq_true_iff.mp isOpen).2
        · exact proper

theorem nextOrdinary {m : Mode} (proper : m.Proper) {c : Char} (ordinary : Ordinary c) :
    m.next c = { m with escaped := false } := by
  obtain ⟨noBackslash, noQuote⟩ := ordinary
  have notOpen : m.quote ≠ some c := by
    intro same
    have := proper c same
    simp_all
  cases escaped : m.escaped with
  | true => simp [next, escaped]
  | false => cases m; simp_all [next]

theorem afterOrdinary {m : Mode} (proper : m.Proper) (ready : m.escaped = false) {text : Text}
    (ordinary : ∀ c ∈ text, Ordinary c) : m.after text = m := by
  induction text with
  | nil => rfl
  | cons c rest ih =>
    have same : m.next c = m := by
      rw [nextOrdinary proper (ordinary c List.mem_cons_self), ← ready]
    rw [afterCons, same]
    exact ih fun d mem => ordinary d (List.mem_cons_of_mem _ mem)

theorem nextPair {m : Mode} (ready : m.escaped = false) (c : Char) :
    (m.next '\\').next c = m := by
  cases m
  simp_all [next]

theorem afterShield {m : Mode} (proper : m.Proper) (ready : m.escaped = false) (value : Text) :
    m.after (Variables.shield value) = m := by
  induction value with
  | nil => rfl
  | cons c rest ih =>
    have step : Variables.shield (c :: rest) =
        (if c = '\\' ∨ c = '\'' ∨ c = '"' then ['\\', c] else [c]) ++ Variables.shield rest := rfl
    rw [step, afterAppend]
    split
    · show ((m.next '\\').next c).after _ = m
      rw [nextPair ready]
      exact ih
    · rename_i special
      have ordinary : Ordinary c := by
        simp only [not_or] at special
        simp [Ordinary, isQuote, special]
      rw [afterOrdinary proper ready (by simpa using ordinary)]
      exact ih

end Mode

theorem noBackslash {c : Char} {rest : Text} (last : c = '\\' → rest = [] → False)
    (pair : ∀ d later, c = '\\' → rest = d :: later → False) : c ≠ '\\' := by
  intro same
  cases rest with
  | nil => exact last same rfl
  | cons d later => exact pair d later same rfl

theorem scanEnding (word : Option Text) (quote : Option Char) (text : Text) :
    (scan word quote text).map (fun _ => ()) = (Mode.after ⟨quote, false⟩ text).ending := by
  fun_induction scan word quote text with
  | case1 word quote isOpen => simp [Mode.after, Mode.ending, isOpen, Except.map]
  | case2 word quote closed => simp [Mode.after, Mode.ending, closed, Except.map]
  | case3 word quote => simp [Mode.after, Mode.next, Mode.ending, Except.map]
  | case4 word quote c rest ih => simpa [Mode.afterCons, Mode.next] using ih
  | case5 word c rest last pair ih =>
    have plain := noBackslash last pair
    simpa [Mode.afterCons, Mode.next, plain] using ih
  | case6 word quote c rest last pair other opens ih =>
    have plain := noBackslash last pair
    simpa [Mode.afterCons, Mode.next, plain, other, opens] using ih
  | case7 word quote c rest last pair other same blank ih =>
    have plain := noBackslash last pair
    have outside : quote = none := by simp_all
    cases outcome : scan none none rest <;>
      simp_all [Mode.afterCons, Mode.next, Except.map]
  | case8 word quote c rest last pair other same inside ih =>
    have plain := noBackslash last pair
    simpa [Mode.afterCons, Mode.next, plain, other, same] using ih

theorem openAfter (quote : Option Char) (text : Text) :
    Background.leavesOpen quote text = (Mode.after ⟨quote, false⟩ text).quote.isSome := by
  fun_induction Background.leavesOpen quote text with
  | case1 quote => rfl
  | case2 quote => simp [Mode.after, Mode.next]
  | case3 quote c rest ih => simpa [Mode.afterCons, Mode.next] using ih
  | case4 c rest last pair ih =>
    have plain := noBackslash last pair
    simpa [Mode.afterCons, Mode.next, plain] using ih
  | case5 quote c rest last pair other opens ih =>
    have plain := noBackslash last pair
    simpa [Mode.afterCons, Mode.next, plain, other, opens] using ih
  | case6 quote c rest last pair other same ih =>
    have plain := noBackslash last pair
    simpa [Mode.afterCons, Mode.next, plain, other, same] using ih

def written (v : Variables) (ps : List Piece) : Text :=
  ps.flatMap fun
    | .reference r => Variables.shield (v.value r)
    | other => other.text

theorem expandWritten (v : Variables) (line : Text) : v.expandLine line = written v (pieces line) :=
  rfl

def Fresh (m : Mode) (typed : Text) : Prop := m.escaped = true → Reference.read? typed = none

theorem afterReference {m : Mode} (proper : m.Proper) (ready : m.escaped = false) {r : Reference}
    (name : isName r.name = true) : m.after r.text = m :=
  Mode.afterOrdinary proper ready (Reference.textOrdinary name)

theorem afterKept {m : Mode} (proper : m.Proper) {r : Reference} (name : isName r.name = true) :
    m.after ('\\' :: r.text) = { m with escaped := false } := by
  obtain ⟨first, tail, spelled⟩ := List.exists_cons_of_ne_nil r.textNotEmpty
  have ordinary := Reference.textOrdinary name
  rw [spelled] at ordinary ⊢
  let ready : Mode := { m with escaped := false }
  have passed : (m.next '\\').next first = ready := by
    cases waiting : m.escaped with
    | true =>
      have cleared : m.next '\\' = ready := by simp [Mode.next, waiting, ready]
      rw [cleared]
      exact Mode.nextOrdinary (m := ready) proper (ordinary first List.mem_cons_self)
    | false =>
      rw [Mode.nextPair waiting]
      simp [ready, ← waiting]
  show Mode.after ((m.next '\\').next first) tail = ready
  rw [passed]
  exact Mode.afterOrdinary (m := ready) proper rfl fun c mem =>
    ordinary c (List.mem_cons_of_mem _ mem)

theorem freshLiteral {m : Mode} {c : Char} {rest : Text}
    (alone : c = '\\' → Reference.read? rest = none) : Fresh (m.next c) rest := by
  intro waiting
  apply alone
  unfold Mode.next at waiting
  split at waiting
  · contradiction
  · split at waiting
    · assumption
    · exfalso
      rename_i idle _
      split at waiting
      · exact idle waiting
      · split at waiting <;> exact idle waiting

theorem freshReady {m : Mode} {typed : Text} (fresh : Fresh m typed) {r : Reference}
    (found : Reference.read? typed = some r) : m.escaped = false := by
  cases waiting : m.escaped with
  | false => rfl
  | true =>
    rw [fresh waiting] at found
    contradiction

theorem afterWritten {typed : Text} {ps : List Piece} (h : Pieced typed ps) (v : Variables)
    {m : Mode} (proper : m.Proper) (fresh : Fresh m typed) {before later : List Piece}
    (cut : ps = before ++ later) :
    m.after (written v before) = m.after (before.flatMap Piece.text) := by
  induction h generalizing m before with
  | nil => simp_all [written]
  | literal alone next ih =>
    cases before with
    | nil => rfl
    | cons first before =>
      obtain ⟨rfl, tailCut⟩ := List.cons_eq_cons.mp cut
      exact ih (Mode.nextProper proper _) (freshLiteral alone) tailCut
  | kept name next ih =>
    cases before with
    | nil => rfl
    | cons first before =>
      obtain ⟨rfl, tailCut⟩ := List.cons_eq_cons.mp cut
      simp only [written, List.flatMap_cons, Piece.text, Mode.afterAppend, afterKept proper name]
      exact ih (m := { m with escaped := false }) proper (by simp [Fresh]) tailCut
  | reference name found next ih =>
    cases before with
    | nil => rfl
    | cons first before =>
      obtain ⟨rfl, tailCut⟩ := List.cons_eq_cons.mp cut
      have ready : m.escaped = false := freshReady fresh found
      simp only [written, List.flatMap_cons, Piece.text, Mode.afterAppend,
        Mode.afterShield proper ready, afterReference proper ready name]
      exact ih proper (by simp [Fresh, ready]) tailCut

/- A line before its values are known: typed characters, and places for values. -/
inductive Slot where
  | typed (c : Char)
  | value (reference : Reference)
  deriving DecidableEq, Repr

namespace Slot

def reference? : Slot → Option Reference
  | typed _ => none
  | value r => some r

def spliced (v : Variables) : Slot → Text
  | typed c => [c]
  | value r => v.value r

def shielded (v : Variables) : Slot → Text
  | typed c => [c]
  | value r => Variables.shield (v.value r)

def ofPiece : Piece → List Slot
  | .reference r => [value r]
  | other => other.text.map typed

end Slot

abbrev WordPlan := List Slot

def WordPlan.fill (v : Variables) (plan : WordPlan) : Text := plan.flatMap (Slot.spliced v)

def slots (ps : List Piece) : List Slot := ps.flatMap Slot.ofPiece

theorem writtenSlots (v : Variables) (ps : List Piece) :
    written v ps = (slots ps).flatMap (Slot.shielded v) := by
  induction ps with
  | nil => rfl
  | cons p rest ih =>
    have head : written v [p] = (Slot.ofPiece p).flatMap (Slot.shielded v) := by
      cases p <;> simp [written, Slot.ofPiece, List.flatMap_map, Slot.shielded]
    have split : written v (p :: rest) = written v [p] ++ written v rest := by simp [written]
    rw [split, head, ih]
    simp [slots]

def extendPlan (word : Option WordPlan) (slot : Slot) : Option WordPlan :=
  some (word.getD [] ++ [slot])

/- The splitting of such a line, row by row the splitting of text; a place for a value is a part
of the word under way, whatever the value will be. -/
def plan (word : Option WordPlan) (quote : Option Char) :
    List Slot → Except TokenError (List WordPlan)
  | [] => if quote.isSome then .error .unterminatedQuote else .ok word.toList
  | [.typed '\\'] => .error .strayBackslash
  | .typed '\\' :: slot :: rest => plan (extendPlan word slot) quote rest
  | .value r :: rest => plan (extendPlan word (.value r)) quote rest
  | .typed c :: rest =>
    if quote = some c then plan word none rest
    else if quote.isNone && isQuote c then plan (some (word.getD [])) (some c) rest
    else if quote.isNone && isBlank c then (plan none none rest).map (word.toList ++ ·)
    else plan (extendPlan word (.typed c)) quote rest

def Enclosed (m : Mode) : List Slot → Prop
  | [] => True
  | .typed c :: rest => Enclosed (m.next c) rest
  | .value _ :: rest => m.quote.isSome = true ∧ m.escaped = false ∧ Enclosed m rest

theorem scanShield (w : Text) (q : Char) (isOpen : isQuote q = true) (value rest : Text) :
    scan (some w) (some q) (Variables.shield value ++ rest) =
      scan (some (w ++ value)) (some q) rest := by
  induction value generalizing w with
  | nil => simp [Variables.shield]
  | cons c later ih =>
    have step : Variables.shield (c :: later) =
        (if c = '\\' ∨ c = '\'' ∨ c = '"' then ['\\', c] else [c]) ++ Variables.shield later := rfl
    have joined : w ++ c :: later = (w ++ [c]) ++ later := by simp
    rw [step, joined, ← ih]
    split
    · simp [scan, extend]
    · rename_i special
      simp only [not_or] at special
      have other : q ≠ c := by
        rintro rfl
        simp_all [isQuote]
      simp [scan, extend, special, other]

theorem fillTyped (v : Variables) (word : Option WordPlan) (c : Char) :
    (extendPlan word (.typed c)).map (WordPlan.fill v) = extend (word.map (WordPlan.fill v)) c := by
  cases word <;> simp [extendPlan, extend, WordPlan.fill, Slot.spliced]

theorem fillValue (v : Variables) (w : WordPlan) (r : Reference) :
    (extendPlan (some w) (.value r)).map (WordPlan.fill v) =
      some (WordPlan.fill v w ++ v.value r) := by
  simp [extendPlan, WordPlan.fill, Slot.spliced]

theorem slotNoBackslash {c : Char} {rest : List Slot} (last : rest = [] → c = '\\' → False)
    (pair : ∀ slot later, rest = slot :: later → c = '\\' → False) : c ≠ '\\' := by
  cases rest with
  | nil => exact last rfl
  | cons slot later => exact pair slot later rfl

/- Splitting the written line is splitting the plan and filling in the values, for every store. -/
theorem scanPlan (v : Variables) (word : Option WordPlan) (quote : Option Char)
    (begun : quote.isSome = true → word.isSome = true) (proper : Mode.Proper ⟨quote, false⟩)
    (line : List Slot) (enclosed : Enclosed ⟨quote, false⟩ line) :
    scan (word.map (WordPlan.fill v)) quote (line.flatMap (Slot.shielded v)) =
      (plan word quote line).map (List.map (WordPlan.fill v)) := by
  fun_induction plan word quote line with
  | case1 word quote isOpen => simp [scan, isOpen, Except.map]
  | case2 word quote closed => cases word <;> simp [scan, closed, Except.map]
  | case3 word quote => simp [scan, Slot.shielded, Except.map]
  | case4 word quote slot rest ih =>
    cases slot with
    | value r =>
      -- no value is put in behind a lone backslash
      simp [Enclosed, Mode.next] at enclosed
    | typed c =>
      have later : Enclosed ⟨quote, false⟩ rest := by simpa [Enclosed, Mode.next] using enclosed
      have same := ih (fun _ => rfl) proper later
      rw [fillTyped] at same
      simpa [Slot.shielded, scan] using same
  | case5 word quote r rest ih =>
    obtain ⟨isOpen, -, later⟩ := enclosed
    obtain ⟨w, rfl⟩ := Option.isSome_iff_exists.mp (begun isOpen)
    obtain ⟨q, rfl⟩ := Option.isSome_iff_exists.mp isOpen
    have same := ih (fun _ => rfl) proper later
    rw [fillValue] at same
    simpa [Slot.shielded, scanShield _ q (proper q rfl)] using same
  | case6 word c rest last pair ih =>
    have plain := slotNoBackslash last pair
    have later : Enclosed {} rest := by simpa [Enclosed, Mode.next, plain] using enclosed
    have same := ih (by simp) (by simp [Mode.Proper]) later
    simpa [Slot.shielded, scan, plain] using same
  | case7 word quote c rest last pair other opens ih =>
    have plain := slotNoBackslash last pair
    have later : Enclosed ⟨some c, false⟩ rest := by
      simpa [Enclosed, Mode.next, plain, other, opens] using enclosed
    have same := ih (fun _ => rfl) (by simp_all [Mode.Proper]) later
    have begins : (some (word.getD [])).map (WordPlan.fill v) =
        some ((word.map (WordPlan.fill v)).getD []) := by cases word <;> rfl
    rw [begins] at same
    simpa [Slot.shielded, scan, plain, other, opens] using same
  | case8 word quote c rest last pair other unquoted blank ih =>
    have plain := slotNoBackslash last pair
    have later : Enclosed {} rest := by
      simp_all [Enclosed, Mode.next]
    have same := ih (by simp) (by simp [Mode.Proper]) later
    have split : scan (word.map (WordPlan.fill v)) quote
        ((Slot.typed c :: rest).flatMap (Slot.shielded v)) =
        (scan none none (rest.flatMap (Slot.shielded v))).map
          ((word.map (WordPlan.fill v)).toList ++ ·) := by
      simp [Slot.shielded, scan, plain, other, unquoted, blank]
    rw [split, show none = Option.map (WordPlan.fill v) none from rfl, same]
    cases plan none none rest <;> cases word <;> simp [Except.map]
  | case9 word quote c rest last pair other unquoted inside ih =>
    have plain := slotNoBackslash last pair
    have later : Enclosed ⟨quote, false⟩ rest := by
      simpa [Enclosed, Mode.next, plain, other, unquoted] using enclosed
    have same := ih (fun _ => rfl) proper later
    rw [fillTyped] at same
    simpa [Slot.shielded, scan, plain, other, unquoted, inside] using same

theorem planReferences {word : Option WordPlan} {quote : Option Char} {line : List Slot}
    {plans : List WordPlan} (ok : plan word quote line = .ok plans) :
    plans.flatten.filterMap Slot.reference? =
      (word.toList.flatten ++ line).filterMap Slot.reference? := by
  have typed (c : Char) : (Slot.typed c).reference? = none := rfl
  fun_induction plan word quote line generalizing plans with
  | case1 => cases ok
  | case2 word quote closed =>
    cases Except.ok.inj ok
    simp
  | case3 => cases ok
  | case4 word quote slot rest ih =>
    rw [ih ok]
    cases word <;> simp [extendPlan, typed]
  | case5 word quote r rest ih =>
    rw [ih ok]
    cases word <;> simp [extendPlan]
  | case6 word c rest last pair ih => simp [ih ok, typed]
  | case7 word quote c rest last pair other opens ih =>
    rw [ih ok]
    cases word <;> simp [typed]
  | case8 word quote c rest last pair other unquoted blank ih =>
    cases found : plan none none rest with
    | error e =>
      rw [found] at ok
      cases ok
    | ok later =>
      rw [found] at ok
      cases Except.ok.inj ok
      simp [ih found, typed]
  | case9 word quote c rest last pair other unquoted inside ih =>
    rw [ih ok]
    cases word <;> simp [extendPlan, typed]

def Quoted (line : Text) : Prop :=
  ∀ before r later, pieces line = before ++ .reference r :: later →
    Background.leavesOpen none (before.flatMap Piece.text) = true

theorem enclosedTyped (m : Mode) (text : Text) (rest : List Slot) :
    Enclosed m (text.map Slot.typed ++ rest) = Enclosed (m.after text) rest := by
  induction text generalizing m with
  | nil => rfl
  | cons c later ih => exact ih (m.next c)

theorem enclosedSlots {typed : Text} {ps : List Piece} (h : Pieced typed ps) {m : Mode}
    (proper : m.Proper) (fresh : Fresh m typed)
    (quoted : ∀ before r later, ps = before ++ .reference r :: later →
      (m.after (before.flatMap Piece.text)).quote.isSome = true) : Enclosed m (slots ps) := by
  induction h generalizing m with
  | nil => trivial
  | @literal c rest ps alone next ih =>
    refine ih (m := m.next c) (Mode.nextProper proper c) (freshLiteral alone) ?_
    intro before r later cut
    exact quoted (.literal c :: before) r later (by rw [cut]; rfl)
  | @kept r rest ps name next ih =>
    have same : slots (.kept r :: ps) = (Piece.kept r).text.map Slot.typed ++ slots ps := rfl
    rw [same, enclosedTyped, Piece.text, afterKept proper name]
    refine ih (m := { m with escaped := false }) proper (by simp [Fresh]) ?_
    intro before other later cut
    have behind := quoted (.kept r :: before) other later (by rw [cut]; rfl)
    rw [List.flatMap_cons, Mode.afterAppend, Piece.text, afterKept proper name] at behind
    exact behind
  | @reference r rest ps name found next ih =>
    have ready := freshReady fresh found
    refine ⟨quoted [] r ps rfl, ready, ih proper (by simp [Fresh, ready]) ?_⟩
    intro before other later cut
    have behind := quoted (.reference r :: before) other later (by rw [cut]; rfl)
    simpa [Piece.text, Mode.afterAppend, afterReference proper ready name] using behind

theorem properStart : Mode.Proper {} := by simp [Mode.Proper]

theorem freshStart (typed : Text) : Fresh {} typed := by simp [Fresh]

theorem endingTyped (line : Text) (v : Variables) :
    (tokenize (v.expandLine line)).map (fun _ => ()) = (Mode.after {} line).ending := by
  have same := afterWritten (pieced line) v properStart (freshStart line) (List.append_nil _).symm
  rw [piecesText (pieced line)] at same
  rw [tokenize, scanEnding, expandWritten, same]

theorem tokenizePlan {line : Text} (quoted : Quoted line) (v : Variables) :
    tokenize (v.expandLine line) =
      (plan none none (slots (pieces line))).map (List.map (WordPlan.fill v)) := by
  have enclosed : Enclosed {} (slots (pieces line)) := by
    refine enclosedSlots (pieced line) properStart (freshStart line) ?_
    intro before r later cut
    rw [← openAfter]
    exact quoted before r later cut
  rw [expandWritten, writtenSlots]
  exact scanPlan v none none (by simp) properStart _ enclosed

def expanded (line : Text) : List Reference :=
  (pieces line).filterMap fun
    | .reference r => some r
    | _ => none

theorem slotsReferences (line : Text) :
    (slots (pieces line)).filterMap Slot.reference? = expanded line := by
  unfold expanded slots
  induction pieces line with
  | nil => rfl
  | cons p rest ih =>
    rw [List.flatMap_cons, List.filterMap_append, ih]
    cases p <;> simp [Slot.ofPiece, Slot.reference?]

theorem quotingSafe (line : Text) (v w : Variables) :
    ((tokenize (v.expandLine line)).map fun _ => ()) =
      ((tokenize (w.expandLine line)).map fun _ => ()) ∧
    (∀ before later, pieces line = before ++ later →
      Mode.after {} (written v before) = Mode.after {} (written w before)) ∧
    (Quoted line →
      (∃ error, ∀ u : Variables, tokenize (u.expandLine line) = .error error) ∨
      ∃ plans : List WordPlan, plans.flatten.filterMap Slot.reference? = expanded line ∧
        ∀ u : Variables, tokenize (u.expandLine line) = .ok (plans.map (WordPlan.fill u))) := by
  refine ⟨?_, ?_, ?_⟩
  · rw [endingTyped, endingTyped]
  · intro before later cut
    rw [afterWritten (pieced line) v properStart (freshStart line) cut,
      afterWritten (pieced line) w properStart (freshStart line) cut]
  · intro quoted
    cases ok : plan none none (slots (pieces line)) with
    | error error =>
      refine .inl ⟨error, fun u => ?_⟩
      rw [tokenizePlan quoted, ok]
      rfl
    | ok plans =>
      refine .inr ⟨plans, ?_, fun u => ?_⟩
      · rw [planReferences ok]
        simpa using slotsReferences line
      · rw [tokenizePlan quoted, ok]
        rfl

theorem quotingSafeQuotedName :
    Quoted "\"$X\"" ∧ ∃ plans : List WordPlan,
      plans.flatten.filterMap Slot.reference? = [⟨.bare, ['X']⟩] ∧
      ∀ u : Variables, tokenize (u.expandLine "\"$X\"") = .ok (plans.map (WordPlan.fill u)) := by
  have cut : pieces "\"$X\"" = [.literal '"', .reference ⟨.bare, ['X']⟩, .literal '"'] := by decide
  have quoted : Quoted "\"$X\"" := by
    intro before r later split
    rw [cut] at split
    rcases before with _ | ⟨a, _ | ⟨b, _ | ⟨c, rest⟩⟩⟩
    · simp at split
    · obtain ⟨rfl, -⟩ := List.cons_eq_cons.mp split
      decide
    · simp at split
    · simp at split
  refine ⟨quoted, ?_⟩
  rcases (quotingSafe "\"$X\"" {} {}).2.2 quoted with ⟨error, fails⟩ | ⟨plans, references, splits⟩
  · have empty := fails {}
    contradiction
  · exact ⟨plans, references, splits⟩

end ConsoleShell.Expansion
