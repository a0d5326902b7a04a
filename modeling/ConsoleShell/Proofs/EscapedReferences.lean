import ConsoleShell.Proofs.JoinedLines
import ConsoleShell.Proofs.Piecewise

/-! References behind backslashes. Expansion looks at the one character before a reference, splitting into
words takes backslashes in pairs from the left. A single backslash hides a reference from both; behind a pair
of them the reference is no longer hidden from the splitting, and is kept all the same. -/
namespace ConsoleShell.EscapedReferences
open Variable WordGrammar
open Background (finalBackslashes)
open Variables (shield)

variable {before after : Text} {r : Reference}

theorem finalNone : finalBackslashes before = 0 ↔ ¬ ['\\'] <:+ before := by
  unfold finalBackslashes
  rw [← List.reverse_prefix]
  cases before.reverse with
  | nil => simp
  | cons last rest => by_cases backslash : last = '\\' <;> simp [backslash, eq_comm]

theorem separateDollar (unhidden : ¬ ['\\'] <:+ before) (behind : Text) : Separate before ('$' :: behind) where
  same _ _ some := Reference.readAcross (.inl rfl) some behind
  unhidden last := absurd last unhidden

theorem separateBackslash (before behind : Text) : Separate before ('\\' :: behind) where
  same _ _ some := Reference.readAcross (.inr rfl) some behind
  unhidden _ := Option.eq_none_iff_forall_ne_some.mpr fun r read => by
    have first := Reference.readDollar read
    contradiction

theorem expandAcross (apart : Separate before after) (write : Text → Text) (v : Variables) :
    v.expandWith write (before ++ after) = v.expandWith write before ++ v.expandWith write after := by
  have cut : pieces (before ++ after) = pieces before ++ pieces after := piecesAcross apart 0 (Nat.zero_le _)
  unfold Variables.expandWith
  rw [cut, List.flatMap_append]

theorem expandFirst (stands : Reference.read? (r.text ++ after) = some r) (write : Text → Text)
    (v : Variables) : v.expandWith write (r.text ++ after) = write (v.value r) ++ v.expandWith write after := by
  unfold Variables.expandWith
  rw [piecesReference stands, List.flatMap_cons]

theorem expandKept (stands : Reference.read? (r.text ++ after) = some r) (write : Text → Text)
    (v : Variables) :
    v.expandWith write ('\\' :: (r.text ++ after)) = '\\' :: (r.text ++ v.expandWith write after) := by
  unfold Variables.expandWith
  rw [piecesKept stands, List.flatMap_cons]
  rfl

theorem expandAround (stands : Reference.read? (r.text ++ after) = some r) (write : Text → Text)
    (v : Variables) :
    v.expandWith write (before ++ (r.text ++ after)) = v.expandWith write before ++
      ((if finalBackslashes before = 0 then write (v.value r) else r.text) ++ v.expandWith write after) := by
  by_cases hidden : ['\\'] <:+ before
  · obtain ⟨start, rfl⟩ := hidden
    rw [if_neg fun inside => finalNone.mp inside (List.suffix_append start ['\\'])]
    have kept := expandAcross (separateBackslash start (r.text ++ after)) write v
    have last := expandAcross (separateBackslash start []) write v
    rw [expandKept stands] at kept
    rw [last, List.append_assoc, List.singleton_append, kept, List.append_assoc]
    rfl
  · obtain ⟨tail, spelled⟩ := r.textDollar
    have apart : Separate before (r.text ++ after) := by
      rw [spelled]
      exact separateDollar hidden _
    rw [if_pos (finalNone.mpr hidden), expandAcross apart, expandFirst stands]

/- The next character is hidden by a backslash that is not hidden itself: a line must not end here. -/
def Hides (text : Text) : Prop := tokenize text = .error .strayBackslash

/- The values in a text say nothing about what is hidden behind it. -/
theorem hidesExpanded (v : Variables) (text : Text) : Hides (v.expandLine text) ↔ Hides text := by
  have stray {outcome : Except TokenError (List Text)} : outcome = .error .strayBackslash ↔
      outcome.map (fun _ => ()) = .error .strayBackslash := by
    cases outcome <;> simp [Except.map]
  have same : (tokenize (v.expandLine text)).map (fun _ => ()) = (tokenize text).map (fun _ => ()) :=
    (Expansion.endingTyped text v).trans (Expansion.scanEnding none none text).symm
  unfold Hides
  rw [stray, same, ← stray]

theorem spanPairs {q : Char} {written meant : Text} (span : Span q written meant) (n : Nat) :
    Span q (List.replicate (2 * n) '\\' ++ written) (List.replicate n '\\' ++ meant) := by
  induction n with
  | zero => exact span
  | succ n ih => exact .escaped '\\' ih

theorem spanOrdinary {q : Char} (quote : Token.isQuote q = true) {text : Text}
    (ordinary : ∀ c ∈ text, Token.Ordinary c) : Span q text text := by
  induction text with
  | nil => exact .empty
  | cons c rest ih =>
    obtain ⟨⟨noBackslash, noQuote⟩, later⟩ := List.forall_mem_cons.mp ordinary
    refine .plain noBackslash ?_ (ih later)
    rintro rfl
    rw [quote] at noQuote
    contradiction

/- Every second backslash is shown; the last one of an odd number hides the dollar sign. -/
theorem spanBackslashes {q : Char} (quote : Token.isQuote q = true) (proper : isName r.name = true) (n : Nat) :
    Span q (List.replicate n '\\' ++ r.text) (List.replicate (n / 2) '\\' ++ r.text) := by
  have ordinary := Reference.textOrdinary proper
  obtain ⟨half, rfl | rfl⟩ : ∃ half, n = 2 * half ∨ n = 2 * half + 1 := ⟨n / 2, by omega⟩
  · rw [Nat.mul_div_cancel_left half (by decide)]
    exact spanPairs (spanOrdinary quote ordinary) half
  · obtain ⟨tail, spelled⟩ := r.textDollar
    rw [spelled] at ordinary ⊢
    have half' : (2 * half + 1) / 2 = half := by omega
    rw [half', List.replicate_succ', List.append_assoc]
    exact spanPairs (.escaped '$' (spanOrdinary quote (List.forall_mem_cons.mp ordinary).2)) half

def quotedBehind (n : Nat) (r : Reference) : Text :=
  '"' :: (List.replicate n '\\' ++ (r.text ++ ['"']))

theorem splitsSpan {written meant : Text} (span : Span '"' written meant) :
    tokenize ('"' :: (written ++ ['"'])) = .ok [meant] := by
  have read := scanPart (.quoted rfl span) none []
  rw [List.append_nil] at read
  exact read

theorem expandPlain {text : Text} (plain : '$' ∉ text) (v : Variables) : v.expandLine text = text := by
  have apart : Piecewise.Apart [] [.literal text] := ⟨plain, trivial⟩
  have expanded := Piecewise.expandSpelled apart shield v
  simpa [Variables.expandLine, Piecewise.spelled, Piecewise.Fragment.text, Piecewise.Fragment.filled]
    using expanded

theorem finalQuoted (n : Nat) : finalBackslashes ('"' :: List.replicate n '\\') = n := by
  simp [finalBackslashes]

theorem splitsQuotedBehind (v : Variables) (proper : isName r.name = true) (n : Nat) :
    tokenize (v.expandLine (quotedBehind n r)) =
      .ok [List.replicate (n / 2) '\\' ++ if n = 0 then v.value r else r.text] := by
  have ends : r.Ends ['"'] := ⟨fun _ => endsAt rfl [], fun _ _ name _ begins => by
    obtain ⟨behind, same⟩ := begins
    cases same⟩
  have expanded : v.expandLine (quotedBehind n r) =
      '"' :: List.replicate n '\\' ++ ((if n = 0 then shield (v.value r) else r.text) ++ ['"']) := by
    have opening : v.expandWith shield ('"' :: List.replicate n '\\') = '"' :: List.replicate n '\\' :=
      expandPlain (by simp) v
    have closing : v.expandWith shield ['"'] = ['"'] := expandPlain (by simp) v
    have around := @expandAround ('"' :: List.replicate n '\\') ['"'] r
      (Reference.readWritten proper ends) shield v
    rwa [opening, closing, finalQuoted] at around
  rw [expanded]
  by_cases none : n = 0
  · subst none
    exact JoinedLines.splitsShielded (v.value r)
  · rw [if_neg none, if_neg none, List.cons_append, ← List.append_assoc]
    exact splitsSpan (spanBackslashes rfl proper n)

theorem keptBehindBackslash (v : Variables) (stands : Reference.read? (r.text ++ after) = some r) :
    v.expandLine (before ++ (r.text ++ after)) = v.expandLine before ++
        ((if finalBackslashes before = 0 then shield (v.value r) else r.text) ++ v.expandLine after) ∧
      (Hides before ↔ finalBackslashes before % 2 = 1) ∧
      (Hides (v.expandLine before) ↔ finalBackslashes before % 2 = 1) ∧
      ∀ n, tokenize (v.expandLine (quotedBehind n r)) =
        .ok [List.replicate (n / 2) '\\' ++ if n = 0 then v.value r else r.text] := by
  have typed : Hides before ↔ finalBackslashes before % 2 = 1 := scanStray none none before
  exact ⟨expandAround stands shield v, typed, (hidesExpanded v before).trans typed,
    splitsQuotedBehind v (Reference.readSound stands).1⟩

theorem keptBehindBackslashPaired :
    let v : Variables := { session := .ofList [("X", "1")] }
    v.expandLine "echo $X \\\\$X" = "echo 1 \\\\$X" ∧ ¬ Hides "echo $X \\\\" ∧
      tokenize (v.expandLine "\"$X\"") = .ok ["1"] ∧ tokenize (v.expandLine "\"\\$X\"") = .ok ["$X"] ∧
      tokenize (v.expandLine "\"\\\\$X\"") = .ok ["\\$X"] := by
  intro v
  have stands : Reference.read? (Reference.text ⟨.bare, "X"⟩ ++ []) = some ⟨.bare, "X"⟩ := by decide
  have kept := @keptBehindBackslash "echo $X \\\\" [] ⟨.bare, "X"⟩ v stands
  obtain ⟨expanded, hides, -, shown⟩ := kept
  exact ⟨expanded, fun hidden => absurd (hides.mp hidden) (by decide), shown 0, shown 1, shown 2⟩

end ConsoleShell.EscapedReferences
