import ConsoleShell.Proofs.ReferenceBounds
import Mathlib.Data.List.Basic

/-! Texts that are put together from literals and references. Where the parts stand apart, each reference is
found again as it was put in, and so the text is expanded part by part. A value goes into it as it is and
is not looked at again. -/
namespace ConsoleShell.Piecewise
open Variable
open Variables (shield)

inductive Fragment where
  | literal (text : Text)
  | reference (r : Reference)
  deriving DecidableEq, Repr

def Fragment.text : Fragment → Text
  | literal text => text
  | reference r => r.text

def spelled (fragments : List Fragment) : Text := fragments.flatMap Fragment.text

/- What stands apart behind a text: no literal holds what begins a reference, and no reference is hidden by a
backslash or runs into what stands behind it. -/
def Apart (before : Text) : List Fragment → Prop
  | [] => True
  | .literal text :: rest => '$' ∉ text ∧ Apart (before ++ text) rest
  | .reference r :: rest =>
    isName r.name = true ∧ ¬ ['\\'] <:+ before ∧ r.Ends (spelled rest) ∧ Apart (before ++ r.text) rest

def answer (v : Variables) (r : Reference) : Text :=
  match r.spelling, v.session.get? r.name with
  | .braced, some value | .bare, some value => value
  | _, _ => (v.environment.get? r.name).getD []

def Fragment.filled (write : Text → Text) (v : Variables) : Fragment → Text
  | literal text => text
  | reference r => write (answer v r)

variable {before text behind : Text} {fragments : List Fragment}

def Fragment.pieces : Fragment → List Piece
  | literal text => text.map Piece.literal
  | reference r => [.reference r]

theorem unreadPlain (plain : '$' ∉ text) (nonempty : text ≠ []) : Reference.read? (text ++ behind) = none := by
  refine Option.eq_none_iff_forall_ne_some.mpr fun r read => ?_
  obtain ⟨c, rest, rfl⟩ := List.exists_cons_of_ne_nil nonempty
  have first := Reference.readDollar read
  simp_all

theorem unreadBehind (apart : Apart before fragments) (hidden : ['\\'] <:+ before) :
    Reference.read? (spelled fragments) = none := by
  induction fragments generalizing before with
  | nil => rfl
  | cons fragment rest ih =>
    cases fragment with
    | reference r => exact absurd hidden apart.2.1
    | literal text =>
      obtain ⟨plain, later⟩ := apart
      by_cases empty : text = []
      · subst empty
        exact ih later (by simpa using hidden)
      · exact unreadPlain plain empty

theorem piecesPlain (plain : '$' ∉ text) (unhidden : ['\\'] <:+ text → Reference.read? behind = none) :
    pieces (text ++ behind) = text.map Piece.literal ++ pieces behind := by
  induction text with
  | nil => rfl
  | cons c rest ih =>
    obtain ⟨other, later⟩ := not_or.mp (fun either => plain (List.mem_cons.mpr either))
    have alone : c = '\\' → Reference.read? (rest ++ behind) = none := by
      rintro rfl
      by_cases last : rest = []
      · subst last
        exact unhidden (List.suffix_refl _)
      · exact unreadPlain later last
    have tail := ih later fun ends => unhidden (ends.trans (List.suffix_cons c rest))
    rw [List.cons_append, piecesLiteral (Ne.symm other) alone, tail]
    rfl

theorem piecesSpelled (apart : Apart before fragments) :
    pieces (spelled fragments) = fragments.flatMap Fragment.pieces := by
  induction fragments generalizing before with
  | nil => rfl
  | cons fragment rest ih =>
    cases fragment with
    | literal text =>
      obtain ⟨plain, later⟩ := apart
      have unhidden : ['\\'] <:+ text → Reference.read? (spelled rest) = none := fun ends =>
        unreadBehind later (ends.trans (List.suffix_append before text))
      exact (piecesPlain plain unhidden).trans (congrArg _ (ih later))
    | reference r =>
      obtain ⟨proper, -, ends, later⟩ := apart
      exact (piecesReference (Reference.readWritten proper ends)).trans (congrArg _ (ih later))

theorem valueAnswer (v : Variables) (r : Reference) : v.value r = answer v r := by
  obtain ⟨spelling, name⟩ := r
  cases session : v.session.get? name <;> cases spelling <;>
    simp [Variables.value, Variables.lookup, answer, Reference.readsEnvironmentOnly, session]

theorem expandSpelled (apart : Apart before fragments) (write : Text → Text) (v : Variables) :
    v.expandWith write (spelled fragments) = fragments.flatMap (Fragment.filled write v) := by
  unfold Variables.expandWith
  rw [piecesSpelled apart, List.flatMap_assoc]
  refine congrArg (fragments.flatMap ·) (funext fun fragment => ?_)
  cases fragment with
  | literal text => simp [Fragment.pieces, Fragment.filled, Piece.text, List.flatMap_map]
  | reference r => simp [Fragment.pieces, Fragment.filled, valueAnswer]

theorem filledAlike {v w : Variables}
    (same : ∀ name, w.environment.get? name = v.environment.get? name)
    (asks : ∀ r, .reference r ∈ fragments → r.readsEnvironmentOnly = true) (write : Text → Text) :
    fragments.flatMap (Fragment.filled write w) = fragments.flatMap (Fragment.filled write v) := by
  refine List.flatMap_congr fun fragment mem => ?_
  cases fragment with
  | literal text => rfl
  | reference r =>
    have value : w.value r = v.value r := by simp [Variables.value, asks r mem, same]
    simp only [Fragment.filled, ← valueAnswer, value]

theorem expandsPiecewise (apart : Apart [] fragments) (v : Variables) :
    v.expand (spelled fragments) = fragments.flatMap (Fragment.filled id v) ∧
      v.expandLine (spelled fragments) = fragments.flatMap (Fragment.filled shield v) ∧
      ∀ w : Variables, (∀ name, w.environment.get? name = v.environment.get? name) →
        (∀ r, .reference r ∈ fragments → r.readsEnvironmentOnly = true) →
        w.expand (spelled fragments) = v.expand (spelled fragments) ∧
          w.expandLine (spelled fragments) = v.expandLine (spelled fragments) := by
  have expanded (w : Variables) : w.expand (spelled fragments) = fragments.flatMap (Fragment.filled id w) :=
    expandSpelled apart id w
  have line (w : Variables) :
      w.expandLine (spelled fragments) = fragments.flatMap (Fragment.filled shield w) :=
    expandSpelled apart shield w
  refine ⟨expanded v, line v, fun w same asks => ?_⟩
  rw [expanded, expanded, line, line]
  exact ⟨filledAlike same asks id, filledAlike same asks shield⟩

def close : List Fragment :=
  [.literal "a\\b", .reference ⟨.bare, "X"⟩, .literal "-\x7bX\x7d", .reference ⟨.bare, "ENV"⟩, .literal "\x7b1\x7d",
    .reference ⟨.braced, "X"⟩, .reference ⟨.environmentBraced, "X"⟩, .literal "x"]

def environmental : List Fragment :=
  [.reference ⟨.environmentPrefixed, "X"⟩, .literal "\\ ", .reference ⟨.environmentBraced, "ENV"⟩]

theorem expandsPiecewiseClose :
    let v : Variables := { session := .ofList [("X", "\"$Y\"")], environment := .ofList [("X", "e")] }
    v.expand "a\\b$X-\x7bX\x7d$ENV\x7b1\x7d$\x7bX\x7d$ENV\x7bX\x7dx" =
        "a\\b\"$Y\"-\x7bX\x7d\x7b1\x7d\"$Y\"ex" ∧
      v.expandLine "a\\b$X-\x7bX\x7d$ENV\x7b1\x7d$\x7bX\x7d$ENV\x7bX\x7dx" =
        "a\\b\\\"$Y\\\"-\x7bX\x7d\x7b1\x7d\\\"$Y\\\"ex" ∧
      v.expand "$\x7bENV:X\x7d\\ $ENV\x7bENV\x7d" =
        Variables.expand { environment := v.environment } "$\x7bENV:X\x7d\\ $ENV\x7bENV\x7d" := by
  intro v
  have braced {r : Reference} (spelling : r.spelling ≠ .bare) (rest : Text) : r.Ends rest :=
    ⟨fun bare => absurd bare spelling, fun bare => absurd bare spelling⟩
  have letter : Reference.Ends ⟨.bare, "X"⟩ (spelled (close.drop 2)) :=
    ⟨fun _ => endsAt rfl _, fun _ named => absurd named (by decide)⟩
  have digit : Reference.Ends ⟨.bare, "ENV"⟩ (spelled (close.drop 4)) := by
    refine ⟨fun _ => endsAt rfl _, fun _ _ name proper begins => ?_⟩
    cases name with
    | nil => contradiction
    | cons first rest =>
      obtain ⟨behind, same⟩ := begins
      obtain rfl : first = '1' := (List.cons.inj (List.cons.inj same).2).1
      have starts : (startsName '1' && rest.all continuesName) = true := proper
      contradiction
  have apart : Apart [] close :=
    ⟨by decide, rfl, by decide, letter, by decide, rfl, by decide, digit, by decide, rfl, by decide,
      braced (by decide) _, rfl, by decide, braced (by decide) _, by decide, trivial⟩
  have environmentApart : Apart [] environmental :=
    ⟨rfl, by decide, braced (by decide) _, by decide, rfl, by decide, braced (by decide) _, trivial⟩
  obtain ⟨expanded, line, -⟩ := expandsPiecewise apart v
  obtain ⟨-, -, alike⟩ := expandsPiecewise environmentApart { environment := v.environment }
  exact ⟨expanded, line, (alike v (fun _ => rfl) (by simp [environmental, Reference.readsEnvironmentOnly])).1⟩

end ConsoleShell.Piecewise
