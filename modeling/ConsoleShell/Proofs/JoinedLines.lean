import ConsoleShell.Proofs.WordGrammar

/-! Lines put one behind the other. Blanks between two lines keep their words apart, so the words of the
whole are those of the one and then those of the other; and any words at all can be written as a line, each
between quotes with everything shielded that has a meaning there. -/
namespace ConsoleShell.JoinedLines
open Token WordGrammar

variable {line gap : Text} {words : List Text}

theorem scanAcross {word : Option Text} {quote : Option Char} (split : scan word quote line = .ok words)
    (blank : Blank gap) (apart : gap ≠ []) (later : Text) :
    scan word quote (line ++ (gap ++ later)) = (tokenize later).map (words ++ ·) := by
  fun_induction scan word quote line generalizing words with
  | case1 | case3 => contradiction
  -- At the end of the first line no quote is left open, and the gap ends the word under way.
  | case2 word quote closed =>
    cases split
    obtain rfl : quote = none := by simpa using closed
    exact scanEnds blank apart word later
  | case4 word quote c rest ih => simpa [scan] using ih split
  | case5 word c rest last pair ih =>
    have plain := Expansion.noBackslash last pair
    simpa [scan, plain] using ih split
  | case6 word quote c rest last pair other opens ih =>
    have plain := Expansion.noBackslash last pair
    simpa [scan, plain, other, opens] using ih split
  | case7 word quote c rest last pair other same isGap ih =>
    obtain ⟨outside, isGap⟩ := Bool.and_eq_true_iff.mp isGap
    obtain rfl : quote = none := by simpa using outside
    cases found : scan none none rest with
    | error error =>
      rw [found] at split
      contradiction
    | ok others =>
      rw [found] at split
      cases split
      rw [List.cons_append, scanBlank isGap, ih found]
      cases tokenize later <;> simp [Except.map]
  | case8 word quote c rest last pair other same inside ih =>
    have plain := Expansion.noBackslash last pair
    simpa [scan, plain, other, same, inside] using ih split

theorem splitsAcross (split : tokenize line = .ok words) (blank : Blank gap) (apart : gap ≠ [])
    (later : Text) : tokenize (line ++ gap ++ later) = (tokenize later).map (words ++ ·) := by
  rw [List.append_assoc]
  exact scanAcross split blank apart later

def shielded (word : Text) : Text := '"' :: (Variables.shield word ++ ['"'])

def written (words : List Text) : Text := Text.join [' '] (words.map shielded)

theorem splitsShielded (word : Text) : tokenize (shielded word) = .ok [word] := by
  have inside := Expansion.scanShield [] '"' rfl word ['"']
  have opens : tokenize (shielded word) = scan (some []) (some '"') (Variables.shield word ++ ['"']) := by
    simp [tokenize, shielded, scan, isQuote]
  rw [opens, inside]
  simp [scan]

theorem splitsWritten (words : List Text) : tokenize (written words) = .ok words := by
  induction words with
  | nil => rfl
  | cons first rest ih =>
    cases rest with
    | nil =>
      have alone : written [first] = shielded first := by simp [written, Text.join, List.intercalate]
      rw [alone, splitsShielded]
    | cons second rest =>
      have apart : written (first :: second :: rest) = shielded first ++ [' '] ++ written (second :: rest) := by
        simp [written, Text.join, List.intercalate]
      have space : Blank [' '] := List.forall_mem_singleton.mpr rfl
      rw [apart, splitsAcross (splitsShielded first) space (List.cons_ne_nil _ _), ih]
      rfl

theorem wordsCompose :
    (∀ line words gap later, tokenize line = .ok words → Blank gap → gap ≠ [] →
      tokenize (line ++ gap ++ later) = (tokenize later).map (words ++ ·)) ∧
    ∀ words, tokenize (written words) = .ok words :=
  ⟨fun _ _ _ later split blank apart => splitsAcross split blank apart later, splitsWritten⟩

theorem wordsComposeQuoted :
    (tokenize "echo \"a b\\\"\"" = .ok ["echo", "a b\""] ∧ Blank ['\t', ' '] ∧ ['\t', ' '] ≠ []) ∧
      tokenize ("echo \"a b\\\"\"" ++ ['\t', ' '] ++ "c\\ d") = .ok ["echo", "a b\"", "c d"] ∧
      tokenize ("echo \"a b\\\"\"" ++ ['\t', ' '] ++ "'c\\") = .error .strayBackslash ∧
      tokenize (written ["", "a \"b\\", "$c'"]) = .ok ["", "a \"b\\", "$c'"] := by
  have split : tokenize "echo \"a b\\\"\"" = .ok ["echo", "a b\""] := rfl
  have blank : Blank ['\t', ' '] := List.forall_mem_cons.mpr ⟨rfl, List.forall_mem_singleton.mpr rfl⟩
  have apart : ['\t', ' '] ≠ [] := List.cons_ne_nil _ _
  refine ⟨⟨split, blank, apart⟩, ?_, ?_, wordsCompose.2 _⟩
  · exact wordsCompose.1 _ _ _ _ split blank apart
  · exact wordsCompose.1 _ _ _ _ split blank apart

end ConsoleShell.JoinedLines
