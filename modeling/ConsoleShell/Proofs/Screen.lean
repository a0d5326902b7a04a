import ConsoleShell.Output.Terminal
import ConsoleShell.Proofs.EscapeGrammar

/-! A screen without bounds. It knows line feeds, carriage returns and the sequences that move the cursor up or
home and that clear what is shown; every other character takes the place at the cursor. Lines that are written
below what is there stand below it, and lines at the bottom are erased by moving up over them. -/
namespace ConsoleShell
open Render EscapeGrammar

/- Rows and places are counted from zero. A row that nothing was written to is empty. -/
structure Screen where
  rows : Nat → Text := fun _ => []
  row : Nat := 0
  column : Nat := 0
  reading : EscapeState := .text

def isControl (c : Char) : Bool := c.toNat < 0x20 || (0x7f ≤ c.toNat && c.toNat < 0xa0)

namespace Screen

def overwrite (row : Text) (column : Nat) (c : Char) : Text :=
  row.take column ++ List.replicate (column - row.length) ' ' ++ c :: row.drop (column + 1)

def put (s : Screen) (c : Char) : Screen :=
  { s with
    rows := fun i => if i = s.row then overwrite (s.rows i) s.column c else s.rows i
    column := s.column + 1 }

def clearBehind (s : Screen) : Screen :=
  { s with
    rows := fun i => if i < s.row then s.rows i else if i = s.row then (s.rows i).take s.column else [] }

def carryOut (s : Screen) (final : Char) (parameters : Text) : Screen :=
  if final = 'A' then { s with row := s.row - max 1 (Whole.value parameters) }
  else if final = 'J' ∧ parameters = [] then s.clearBehind
  else if final = 'J' ∧ parameters = ['2'] then { s with rows := fun _ => [] }
  else if final = 'H' ∧ parameters = [] then { s with row := 0, column := 0 }
  else s

def receive (s : Screen) (c : Char) : Screen :=
  match s.reading with
  | .text =>
    if c = escapeCharacter then { s with reading := .escape }
    else if c = '\n' then { s with row := s.row + 1, column := 0 }
    else if c = '\r' then { s with column := 0 }
    else s.put c
  | .escape => { s with reading := if c = '[' then .parameters [] else .text }
  | .parameters body =>
    if endsSequence c then { s with reading := .text }.carryOut c body
    else { s with reading := .parameters (body ++ [c]) }

def feed (s : Screen) (text : Text) : Screen := text.foldl receive s

def showing (rows : List Text) : Screen := { rows := fun i => rows[i]?.getD [], row := rows.length }

def partway (rows : List Text) (begun : Text) : Screen :=
  { rows := (showing (rows ++ [begun])).rows, row := rows.length, column := begun.length }

variable {s : Screen} {rows : List Text} {begun : Text}

theorem feedAppend (s : Screen) (a b : Text) : s.feed (a ++ b) = (s.feed a).feed b := List.foldl_append

theorem controlKinds {c : Char} (shown : isControl c = false) : c ≠ escapeCharacter ∧ c ≠ '\n' ∧ c ≠ '\r' := by
  refine ⟨?_, ?_, ?_⟩ <;> (rintro rfl; contradiction)

theorem partwayNothing (rows : List Text) : partway rows [] = showing rows := by
  have blank (i : Nat) : (rows ++ [[]])[i]?.getD [] = rows[i]?.getD [] := by
    by_cases inside : i < rows.length
    · rw [List.getElem?_append_left inside]
    · rw [List.getElem?_append_right (Nat.not_lt.mp inside), List.getElem?_eq_none (Nat.not_lt.mp inside)]
      cases i - rows.length <;> rfl
  simp only [partway, showing, blank]
  rfl

theorem putPartway (rows : List Text) (begun : Text) (c : Char) :
    (partway rows begun).put c = partway rows (begun ++ [c]) := by
  have places (i : Nat) : (if i = rows.length then overwrite ((rows ++ [begun])[i]?.getD []) begun.length c
      else (rows ++ [begun])[i]?.getD []) = (rows ++ [begun ++ [c]])[i]?.getD [] := by
    split
    · rename_i same
      simp [same, overwrite]
    · rename_i other
      by_cases inside : i < rows.length
      · rw [List.getElem?_append_left inside, List.getElem?_append_left inside]
      · have beyond : rows.length + 1 ≤ i := by omega
        rw [List.getElem?_eq_none (by simpa using beyond), List.getElem?_eq_none (by simpa using beyond)]
  simp only [put, partway, showing, places, List.length_append, List.length_singleton]

theorem feedText {text : Text} (shown : ∀ c ∈ text, isControl c = false) :
    (partway rows begun).feed text = partway rows (begun ++ text) := by
  induction text generalizing begun with
  | nil => simp [feed]
  | cons c rest ih =>
    obtain ⟨first, later⟩ := List.forall_mem_cons.mp shown
    obtain ⟨noEscape, noFeed, noReturn⟩ := controlKinds first
    have received : (partway rows begun).receive c = partway rows (begun ++ [c]) := by
      rw [← putPartway]
      simp [receive, partway, noEscape, noFeed, noReturn]
    show ((partway rows begun).receive c).feed rest = _
    rw [received, ih later, List.append_assoc]
    rfl

theorem feedLine {text : Text} (shown : ∀ c ∈ text, isControl c = false) :
    (showing rows).feed (text ++ ['\n']) = showing (rows ++ [text]) := by
  rw [feedAppend, ← partwayNothing, feedText shown]
  simp [feed, receive, partway, showing, escapeCharacter]

theorem feedLines {lines : List Text} (shown : ∀ text ∈ lines, ∀ c ∈ text, isControl c = false) :
    (showing rows).feed (lines.flatMap (· ++ ['\n'])) = showing (rows ++ lines) := by
  induction lines generalizing rows with
  | nil => simp [feed]
  | cons text rest ih =>
    obtain ⟨first, later⟩ := List.forall_mem_cons.mp shown
    rw [List.flatMap_cons, feedAppend, feedLine first, ih later, List.append_assoc]
    rfl

theorem feedSequence (idle : s.reading = .text) {body : Text} {final : Char}
    (runs : ∀ c ∈ body, endsSequence c = false) (ends : endsSequence final = true) :
    s.feed (escapeCharacter :: '[' :: (body ++ [final])) = s.carryOut final body := by
  have same : { s with reading := .text } = s := by
    rw [← idle]
  have going (before : Text) : ({ s with reading := .parameters before } : Screen).feed (body ++ [final]) =
      s.carryOut final (before ++ body) := by
    induction body generalizing before with
    | nil =>
      have closed : ({ s with reading := .parameters before } : Screen).receive final =
          ({ s with reading := .text } : Screen).carryOut final before := if_pos ends
      rw [List.append_nil]
      exact closed.trans (by rw [same])
    | cons c rest ih =>
      obtain ⟨first, later⟩ := List.forall_mem_cons.mp runs
      have longer : ({ s with reading := .parameters before } : Screen).receive c =
          { s with reading := .parameters (before ++ [c]) } := if_neg (by simp [first])
      show (({ s with reading := .parameters before } : Screen).receive c).feed (rest ++ [final]) = _
      rw [longer, ih later, List.append_assoc]
      rfl
  have opened : (s.receive escapeCharacter).receive '[' = { s with reading := .parameters [] } := by
    simp [receive, idle]
  show ((s.receive escapeCharacter).receive '[').feed (body ++ [final]) = _
  rw [opened, going]
  rfl

theorem valueWritten (n : Nat) : Whole.value (Text.ofNat n) = n := by
  have written := Nat.ofDigitChars_ten_toDigits (n := n)
  rw [Nat.ofDigitChars_eq_foldl] at written
  unfold Whole.value Whole.valueFrom Text.ofNat
  simpa only [Nat.mul_comm] using written

theorem feedUp (idle : s.reading = .text) {n : Nat} (positive : n ≠ 0) :
    s.feed ("\x1b[" ++ Text.ofNat n ++ "A") = { s with row := s.row - n } := by
  have digits : ∀ c ∈ Text.ofNat n, endsSequence c = false := fun c mem =>
    digitRuns (Nat.isDigit_of_mem_toDigits (by decide) (by decide) mem)
  have ends : endsSequence 'A' = true := rfl
  refine (feedSequence idle digits ends).trans ?_
  have moved : max 1 n = n := by omega
  rw [carryOut, if_pos rfl, valueWritten, moved]

theorem feedClearBehind (idle : s.reading = .text) :
    s.feed "\r\x1b[J" = ({ s with column := 0 } : Screen).clearBehind := by
  have returned : s.receive '\r' = { s with column := 0 } := by
    simp [receive, idle, escapeCharacter]
  show (s.receive '\r').feed (escapeCharacter :: '[' :: ([] ++ ['J'])) = _
  rw [returned]
  exact (feedSequence (s := { s with column := 0 }) idle (by simp) rfl).trans rfl

theorem feedClear (idle : s.reading = .text) : s.feed "\x1b[2J\x1b[H" = showing [] := by
  have cleared : s.feed (escapeCharacter :: '[' :: (['2'] ++ ['J'])) = { s with rows := fun _ => [] } :=
    feedSequence idle (List.forall_mem_singleton.mpr rfl) rfl
  have home : ({ s with rows := fun _ => [] } : Screen).feed (escapeCharacter :: '[' :: ([] ++ ['H'])) =
      { s with rows := fun _ => [], row := 0, column := 0 } :=
    feedSequence (s := { s with rows := fun _ => [] }) idle (by simp) rfl
  show s.feed ((escapeCharacter :: '[' :: (['2'] ++ ['J'])) ++ (escapeCharacter :: '[' :: ([] ++ ['H']))) = _
  rw [feedAppend, cleared, home, idle]
  simp [showing]

theorem feedErase (rows old : List Text) :
    (showing (rows ++ old)).feed (Terminal.erase old.length) = showing rows := by
  let above : Screen := { showing (rows ++ old) with row := rows.length }
  have up : (showing (rows ++ old)).feed (if old.length = 0 then [] else "\x1b[" ++ Text.ofNat old.length ++ "A") =
      above := by
    split
    · rename_i empty
      obtain rfl := List.length_eq_zero_iff.mp empty
      simp [feed, showing, above]
    · rename_i upward
      rw [feedUp rfl upward]
      simp [showing, above]
  have left (i : Nat) : (if i < rows.length then (rows ++ old)[i]?.getD [] else
      if i = rows.length then ((rows ++ old)[i]?.getD []).take 0 else []) = rows[i]?.getD [] := by
    by_cases inside : i < rows.length
    · rw [if_pos inside, List.getElem?_append_left inside]
    · rw [if_neg inside, List.take_zero, ite_self, List.getElem?_eq_none (Nat.not_lt.mp inside)]
      rfl
  unfold Terminal.erase
  dsimp only
  rw [feedAppend, up, feedClearBehind rfl]
  simp only [clearBehind, above, showing, left]

end Screen

end ConsoleShell
