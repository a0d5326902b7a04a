import ConsoleShell.Token
import ConsoleShell.Variable.Store

/-! Reading a text into literals and references. The pieces are the text itself, cut up: nothing is
lost and nothing is read twice. A reference is spelled with a proper name, in characters that mean
nothing to the splitting into words, and none directly follows a backslash that stands alone. -/
namespace ConsoleShell

def Token.Ordinary (c : Char) : Prop := c ≠ '\\' ∧ isQuote c = false
instance (c) : Decidable (Token.Ordinary c) := by unfold Token.Ordinary; infer_instance

namespace Variable
open Token (Ordinary)

theorem takenName {typed name rest : Text} (ok : takeName? typed = some (name, rest)) :
    typed = name ++ rest ∧ isName name = true := by
  cases typed with
  | nil => simp [takeName?] at ok
  | cons c later =>
    simp only [takeName?] at ok
    split at ok
    · rename_i starts
      obtain ⟨rfl, rfl⟩ := Prod.mk.inj (Option.some.inj ok)
      refine ⟨by simp, ?_⟩
      simp [isName, starts]
    · contradiction

theorem droppedStart {start typed rest : Text} (ok : Text.dropStart? start typed = some rest) :
    typed = start ++ rest := by
  simp only [Text.dropStart?] at ok
  split at ok
  · rename_i begins
    obtain ⟨later, rfl⟩ := List.isPrefixOf_iff_prefix.mp begins
    simpa using ok
  · contradiction

theorem continuesOrdinary {c : Char} (h : continuesName c = true) : Ordinary c := by
  refine ⟨?_, ?_⟩
  · rintro rfl
    revert h
    decide
  · simp only [Token.isQuote, Bool.or_eq_false_iff, decide_eq_false_iff_not]
    constructor <;> (rintro rfl; revert h; decide)

theorem startsContinues {c : Char} (h : startsName c = true) : continuesName c = true := by
  simp only [startsName, continuesName, Char.isAlphanum, Bool.or_eq_true] at h ⊢
  exact h.imp_left Or.inl

theorem nameOrdinary {name : Text} (proper : isName name = true) : ∀ c ∈ name, Ordinary c := by
  cases name with
  | nil => simp
  | cons first rest =>
    simp only [isName, Bool.and_eq_true, List.all_eq_true] at proper
    intro c mem
    rcases List.mem_cons.mp mem with rfl | mem
    · exact continuesOrdinary (startsContinues proper.1)
    · exact continuesOrdinary (proper.2 c mem)

namespace Reference

theorem enclosedSound {opening typed : Text} {spelling : Spelling} {r : Reference}
    (ok : enclosed? opening spelling typed = some r) :
    r.spelling = spelling ∧ isName r.name = true ∧
      ∃ rest, typed = opening ++ r.name ++ '}' :: rest := by
  simp only [enclosed?, bind, Option.bind_eq_some_iff] at ok
  obtain ⟨inner, opened, ⟨name, rest⟩, taken, last⟩ := ok
  obtain ⟨whole, proper⟩ := takenName taken
  split at last
  · rename_i closed
    cases Option.some.inj last
    obtain ⟨later, rfl⟩ := List.isPrefixOf_iff_prefix.mp closed
    refine ⟨rfl, proper, later, ?_⟩
    rw [droppedStart opened, whole]
    simp
  · contradiction

theorem readSound {typed : Text} {r : Reference} (ok : read? typed = some r) :
    isName r.name = true ∧ ∃ rest, typed = r.text ++ rest := by
  simp only [read?, Option.or_eq_some_iff] at ok
  rcases ok with found | ⟨_, found | ⟨_, found | ⟨_, found⟩⟩⟩
  · obtain ⟨kind, proper, rest, whole⟩ := enclosedSound found
    exact ⟨proper, rest, by simp [whole, text, kind]⟩
  · obtain ⟨kind, proper, rest, whole⟩ := enclosedSound found
    exact ⟨proper, rest, by simp [whole, text, kind]⟩
  · obtain ⟨kind, proper, rest, whole⟩ := enclosedSound found
    exact ⟨proper, rest, by simp [whole, text, kind]⟩
  · simp only [bind, Option.bind_eq_some_iff] at found
    obtain ⟨inner, opened, ⟨name, rest⟩, taken, last⟩ := found
    obtain ⟨whole, proper⟩ := takenName taken
    cases Option.some.inj last
    refine ⟨proper, rest, ?_⟩
    rw [droppedStart opened, whole]
    rfl

theorem textNotEmpty (r : Reference) : r.text ≠ [] := by
  cases kind : r.spelling <;> simp [text, kind]

theorem textOrdinary {r : Reference} (proper : isName r.name = true) :
    ∀ c ∈ r.text, Ordinary c := by
  have name := nameOrdinary proper
  have around : ∀ c ∈ ['$', '{', '}', 'E', 'N', 'V', ':'], Ordinary c := by
    simp [Ordinary, Token.isQuote]
  intro c mem
  cases kind : r.spelling <;>
    simp only [text, kind, List.mem_append, List.mem_cons] at mem <;>
    grind

end Reference

inductive Pieced : Text → List Piece → Prop where
  | nil : Pieced [] []
  | literal {c rest ps} (alone : c = '\\' → Reference.read? rest = none)
      (next : Pieced rest ps) : Pieced (c :: rest) (.literal c :: ps)
  | kept {r : Reference} {rest ps} (proper : isName r.name = true)
      (next : Pieced rest ps) : Pieced ('\\' :: (r.text ++ rest)) (.kept r :: ps)
  | reference {r : Reference} {rest ps} (proper : isName r.name = true)
      (found : Reference.read? (r.text ++ rest) = some r)
      (next : Pieced rest ps) : Pieced (r.text ++ rest) (.reference r :: ps)

theorem piecesSkip (skip : Nat) (typed : Text) :
    piecesFrom skip typed = pieces (typed.drop skip) := by
  induction typed generalizing skip with
  | nil => cases skip <;> simp [pieces, piecesFrom]
  | cons c rest ih =>
    cases skip with
    | zero => rfl
    | succ skip => simpa [piecesFrom] using ih skip

theorem pieced (typed : Text) : Pieced typed (pieces typed) := by
  match typed with
  | [] => exact .nil
  | c :: rest =>
    unfold pieces piecesFrom
    split
    · rename_i backslash
      subst backslash
      split
      · rename_i r found
        obtain ⟨proper, later, rfl⟩ := Reference.readSound found
        have shorter : later.length < ('\\' :: (r.text ++ later)).length := by
          simp only [List.length_cons, List.length_append]
          omega
        rw [piecesSkip, List.drop_left]
        exact .kept proper (pieced later)
      · rename_i unread
        exact .literal (fun _ => unread) (pieced rest)
    · rename_i plain
      split
      · rename_i r found
        obtain ⟨proper, later, whole⟩ := Reference.readSound found
        -- the first character of the reference is the one that was read
        obtain ⟨first, tail, spelled⟩ := List.exists_cons_of_ne_nil r.textNotEmpty
        have split : rest = tail ++ later := by simp_all
        have shorter : later.length < (c :: rest).length := by
          simp only [split, List.length_cons, List.length_append]
          omega
        have passed : piecesFrom (r.text.length - 1) rest = pieces later := by
          rw [piecesSkip, spelled, split]
          simp
        rw [passed, whole]
        exact .reference proper (whole ▸ found) (pieced later)
      · exact .literal (fun same => absurd same plain) (pieced rest)
termination_by typed.length

theorem piecesText {typed : Text} {ps : List Piece} (h : Pieced typed ps) :
    ps.flatMap Piece.text = typed := by
  induction h with
  | nil => rfl
  | literal alone next ih => simp [Piece.text, ih]
  | kept proper next ih => simp [Piece.text, ih]
  | reference proper found next ih => simp [Piece.text, ih]

end Variable
end ConsoleShell
