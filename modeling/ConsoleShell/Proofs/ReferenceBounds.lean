import ConsoleShell.Proofs.Reference

/-! Where names and references end. A name goes on as far as it can, and what stands behind it tells that it is
over; a reference is read as it was written if nothing behind it makes another one of it. No reference goes
on with a dollar sign or a backslash, so a text falls apart there into the pieces of what stands before and
of what begins there. -/
namespace ConsoleShell.Variable

def EndsName (rest : Text) : Prop := ∀ c, rest.head? = some c → continuesName c = false

theorem endsAt {c : Char} (stops : continuesName c = false) (rest : Text) : EndsName (c :: rest) := by
  intro first same
  rw [← Option.some.inj same]
  exact stops

theorem namedBefore {name rest : Text} (proper : isName name = true) (ends : EndsName rest) :
    takeName? (name ++ rest) = some (name, rest) := by
  cases name with
  | nil => simp [isName] at proper
  | cons first later =>
    obtain ⟨starts, continues⟩ := Bool.and_eq_true_iff.mp proper
    have all : ∀ c ∈ later, continuesName c = true := List.all_eq_true.mp continues
    have stops : rest.takeWhile continuesName = [] ∧ rest.dropWhile continuesName = rest := by
      cases rest with
      | nil => exact ⟨rfl, rfl⟩
      | cons c rest => simp [ends c rfl]
    simp [takeName?, starts, List.takeWhile_append_of_pos all, List.dropWhile_append_of_pos all, stops]

theorem nameApart {name rest other behind : Text} (proper : isName name = true) (ends : EndsName rest)
    (named : isName other = true) (stops : EndsName behind) (same : name ++ rest = other ++ behind) :
    name = other ∧ rest = behind := by
  have first := namedBefore proper ends
  rw [same, namedBefore named stops] at first
  simpa [eq_comm] using first

theorem droppedBefore (start rest : Text) : Text.dropStart? start (start ++ rest) = some rest := by
  simp [Text.dropStart?]

section Across

variable {d : Char} {text : Text}

theorem beginsAcross {start : Text} (absent : d ∉ start) (text behind : Text) :
    Text.dropStart? start (text ++ d :: behind) = (Text.dropStart? start text).map (· ++ d :: behind) := by
  have begins : start.isPrefixOf (text ++ d :: behind) = start.isPrefixOf text := by
    induction start generalizing text with
    | nil => simp
    | cons c start ih =>
      obtain ⟨first, later⟩ := not_or.mp (fun either => absent (List.mem_cons.mpr either))
      cases text with
      | nil => simp [List.isPrefixOf, Ne.symm first]
      | cons e text => simp only [List.cons_append, List.isPrefixOf, ih later]
  unfold Text.dropStart?
  rw [begins]
  split
  · rename_i there
    have most := (List.isPrefixOf_iff_prefix.mp there).length_le
    rw [List.drop_append_of_le_length most]
    rfl
  · rfl

theorem beginsAcrossFirst {first : Char} {start : Text} (absent : d ∉ start) (nonempty : text ≠ [])
    (behind : Text) : Text.dropStart? (first :: start) (text ++ d :: behind) =
      (Text.dropStart? (first :: start) text).map (· ++ d :: behind) := by
  obtain ⟨c, later, rfl⟩ := List.exists_cons_of_ne_nil nonempty
  have across := beginsAcross absent later behind
  by_cases same : first = c
  · subst same
    simpa [Text.dropStart?] using across
  · simp [Text.dropStart?, same]

theorem nameAcross (stops : continuesName d = false) (text behind : Text) :
    takeName? (text ++ d :: behind) = (takeName? text).map fun (name, rest) => (name, rest ++ d :: behind) := by
  cases text with
  | nil =>
    have noStart : startsName d = false :=
      Bool.eq_false_iff.mpr fun starts => Bool.eq_false_iff.mp stops (startsContinues starts)
    simp [takeName?, noStart]
  | cons first later =>
    have name : (later ++ d :: behind).takeWhile continuesName = later.takeWhile continuesName := by
      rw [List.takeWhile_append]
      split
      · rename_i whole
        rw [List.takeWhile_cons_of_neg (by simp [stops]), List.append_nil]
        exact (List.takeWhile_prefix _).eq_of_length whole |>.symm
      · rfl
    have rest : (later ++ d :: behind).dropWhile continuesName =
        later.dropWhile continuesName ++ d :: behind := by
      rw [List.dropWhile_append]
      split
      · rename_i empty
        rw [List.dropWhile_cons_of_neg (by simp [stops]), List.isEmpty_iff.mp empty, List.nil_append]
      · rfl
    simp only [takeName?, List.cons_append, name, rest]
    split <;> rfl

end Across

namespace Reference

theorem textDollar (r : Reference) : ∃ tail, r.text = '$' :: tail := by
  cases kind : r.spelling <;> simp [text, kind]

theorem readDollar {typed : Text} {r : Reference} (ok : read? typed = some r) : typed.head? = some '$' := by
  obtain ⟨-, rest, rfl⟩ := readSound ok
  obtain ⟨tail, spelled⟩ := r.textDollar
  rw [spelled]
  rfl

structure Ends (r : Reference) (rest : Text) : Prop where
  name : r.spelling = .bare → EndsName rest
  /- Behind `$ENV` a name in braces would make another reference. -/
  braces : r.spelling = .bare → r.name = "ENV" →
    ∀ name, isName name = true → ¬ '{' :: (name ++ ['}']) <+: rest

theorem encloses {name : Text} (proper : isName name = true) (opening : Text) (spelling : Spelling)
    (rest : Text) : enclosed? opening spelling (opening ++ (name ++ '}' :: rest)) = some ⟨spelling, name⟩ := by
  have named := namedBefore proper (endsAt (by decide : continuesName '}' = false) rest)
  unfold enclosed?
  rw [droppedBefore]
  simp [named]

theorem enclosesNothing {opening typed : Text} (spelling : Spelling)
    (other : ∀ name rest, isName name = true → typed ≠ opening ++ name ++ '}' :: rest) :
    enclosed? opening spelling typed = none := by
  refine Option.eq_none_iff_forall_ne_some.mpr fun r read => ?_
  obtain ⟨-, proper, rest, whole⟩ := enclosedSound read
  exact other r.name rest proper whole

theorem enclosesOther {opening typed : Text} (spelling : Spelling) (apart : ¬ opening <+: typed) :
    enclosed? opening spelling typed = none := by
  unfold enclosed? Text.dropStart?
  rw [if_neg fun begins => apart (List.isPrefixOf_iff_prefix.mp begins)]
  rfl

theorem readWritten {r : Reference} {rest : Text} (proper : isName r.name = true) (ends : r.Ends rest) :
    read? (r.text ++ rest) = some r := by
  obtain ⟨spelling, name⟩ := r
  have brace (rest : Text) : EndsName ('}' :: rest) := endsAt rfl rest
  cases spelling with
  | environmentPrefixed =>
    have whole : text ⟨.environmentPrefixed, name⟩ ++ rest = "$\x7bENV:" ++ (name ++ '}' :: rest) := by
      simp [text]
    rw [whole, read?, encloses proper, Option.some_or]
  | environmentBraced =>
    have whole : text ⟨.environmentBraced, name⟩ ++ rest = "$ENV\x7b" ++ (name ++ '}' :: rest) := by
      simp [text]
    rw [whole, read?, enclosesOther _ (by simp), encloses proper, Option.none_or, Option.some_or]
  | braced =>
    have whole : text ⟨.braced, name⟩ ++ rest = "$\x7b" ++ (name ++ '}' :: rest) := by simp [text]
    have first : enclosed? "$\x7bENV:" .environmentPrefixed ("$\x7b" ++ (name ++ '}' :: rest)) = none := by
      refine enclosesNothing _ fun other behind _ same => ?_
      have names : name ++ '}' :: rest = "ENV" ++ ':' :: (other ++ '}' :: behind) := by simpa using same
      have stops := (nameApart proper (brace rest) (by decide) (endsAt rfl _) names).2
      simp at stops
    rw [whole, read?, first, enclosesOther _ (by simp), encloses proper, Option.none_or, Option.none_or,
      Option.some_or]
  | bare =>
    have whole : text ⟨.bare, name⟩ ++ rest = '$' :: (name ++ rest) := rfl
    have named : takeName? (name ++ rest) = some (name, rest) := namedBefore proper (ends.name rfl)
    have unbraced {opening : Text} (spelling : Spelling) :
        enclosed? ('$' :: '{' :: opening) spelling ('$' :: (name ++ rest)) = none := by
      refine enclosesNothing _ fun other behind _ same => ?_
      rw [(List.cons.inj same).2] at named
      contradiction
    have second : enclosed? "$ENV\x7b" .environmentBraced ('$' :: (name ++ rest)) = none := by
      refine enclosesNothing _ fun other behind inner same => ?_
      have names : name ++ rest = "ENV" ++ '{' :: (other ++ '}' :: behind) := by simpa using same
      obtain ⟨rfl, rfl⟩ := nameApart proper (ends.name rfl) (by decide) (endsAt rfl _) names
      exact ends.braces rfl rfl other inner ⟨behind, by simp⟩
    have first : enclosed? "$\x7bENV:" .environmentPrefixed ('$' :: (name ++ rest)) = none := unbraced _
    have third : enclosed? "$\x7b" .braced ('$' :: (name ++ rest)) = none := unbraced _
    rw [whole, read?, first, second, third]
    simp [Text.dropStart?, named]

theorem readAcross {d : Char} (stops : d = '$' ∨ d = '\\') {typed : Text} (nonempty : typed ≠ []) (behind : Text) :
    read? (typed ++ d :: behind) = read? typed := by
  have ends : continuesName d = false := by rcases stops with rfl | rfl <;> rfl
  have brace (rest : Text) : ['}'].isPrefixOf (rest ++ d :: behind) = ['}'].isPrefixOf rest := by
    cases rest with
    | nil => rcases stops with rfl | rfl <;> rfl
    | cons => rfl
  have encloses {start : Text} {spelling : Spelling} (absent : d ∉ start) :
      enclosed? ('$' :: start) spelling (typed ++ d :: behind) = enclosed? ('$' :: start) spelling typed := by
    unfold enclosed?
    rw [beginsAcrossFirst absent nonempty]
    cases Text.dropStart? ('$' :: start) typed with
    | none => rfl
    | some inner =>
      simp only [Option.map_some, Option.bind_eq_bind, Option.bind_some, nameAcross ends]
      cases takeName? inner with
      | none => rfl
      | some taken => simp only [Option.map_some, Option.bind_some, brace]
  have absent : d ∉ ("\x7bENV:" : Text) ∧ d ∉ ("ENV\x7b" : Text) ∧ d ∉ ("\x7b" : Text) := by
    rcases stops with rfl | rfl <;> decide
  have first : enclosed? "$\x7bENV:" .environmentPrefixed (typed ++ d :: behind) =
      enclosed? "$\x7bENV:" .environmentPrefixed typed := encloses absent.1
  have second : enclosed? "$ENV\x7b" .environmentBraced (typed ++ d :: behind) =
      enclosed? "$ENV\x7b" .environmentBraced typed := encloses absent.2.1
  have third : enclosed? "$\x7b" .braced (typed ++ d :: behind) = enclosed? "$\x7b" .braced typed :=
    encloses absent.2.2
  unfold read?
  rw [first, second, third, beginsAcrossFirst (List.not_mem_nil) nonempty]
  cases Text.dropStart? ['$'] typed with
  | none => rfl
  | some inner =>
    simp only [Option.map_some, Option.bind_eq_bind, Option.bind_some, nameAcross ends]
    cases takeName? inner <;> rfl

end Reference

section Pieces

variable {c : Char} {r : Reference} {rest : Text}

theorem piecesLiteral (plain : c ≠ '$') (alone : c = '\\' → Reference.read? rest = none) :
    pieces (c :: rest) = .literal c :: pieces rest := by
  have unread : Reference.read? (c :: rest) = none :=
    Option.eq_none_iff_forall_ne_some.mpr fun r read =>
      plain (Option.some.inj (Reference.readDollar read))
  unfold pieces
  rw [piecesFrom, unread]
  split
  · rename_i backslash
    rw [alone backslash]
  · rfl

theorem piecesReference (found : Reference.read? (r.text ++ rest) = some r) :
    pieces (r.text ++ rest) = .reference r :: pieces rest := by
  obtain ⟨tail, spelled⟩ := r.textDollar
  have later : piecesFrom (r.text.length - 1) (tail ++ rest) = pieces rest := by
    rw [piecesSkip, spelled]
    simp
  rw [spelled, List.cons_append] at found ⊢
  rw [pieces, piecesFrom, if_neg (by decide), found]
  simp only [later]

theorem piecesKept (found : Reference.read? (r.text ++ rest) = some r) :
    pieces ('\\' :: (r.text ++ rest)) = .kept r :: pieces rest := by
  rw [pieces, piecesFrom, if_pos rfl, found]
  simp only [piecesSkip, List.drop_left]

/- No reference goes across from one text into another, and no backslash reaches one there. -/
structure Separate (before behind : Text) : Prop where
  same : ∀ tail, tail <:+ before → tail ≠ [] → Reference.read? (tail ++ behind) = Reference.read? tail
  unhidden : ['\\'] <:+ before → Reference.read? behind = none

variable {before behind : Text}

theorem Separate.tail (apart : Separate (c :: rest) behind) : Separate rest behind where
  same part later := apart.same part (later.trans (List.suffix_cons c rest))
  unhidden last := apart.unhidden (last.trans (List.suffix_cons c rest))

theorem readInside (read : Reference.read? rest = some r) : r.text.length ≤ rest.length := by
  obtain ⟨-, later, rfl⟩ := Reference.readSound read
  simp

theorem piecesAcross (apart : Separate before behind) (skip : Nat) (inside : skip ≤ before.length) :
    piecesFrom skip (before ++ behind) = piecesFrom skip before ++ pieces behind := by
  fun_induction piecesFrom skip before with
  | case1 skip =>
    obtain rfl : skip = 0 := Nat.le_zero.mp inside
    rfl
  | case2 skip c rest ih => exact ih apart.tail (Nat.le_of_succ_le_succ inside)
  | case3 rest r found ih =>
    have nonempty : rest ≠ [] := by
      rintro rfl
      cases found
    have still := (apart.same rest (List.suffix_cons _ rest) nonempty).trans found
    rw [List.cons_append, piecesFrom, if_pos rfl, still]
    simp only [ih apart.tail (readInside found), List.cons_append]
  | case4 rest unread ih =>
    have still : Reference.read? (rest ++ behind) = none := by
      by_cases last : rest = []
      · subst last
        exact apart.unhidden (List.suffix_refl _)
      · exact (apart.same rest (List.suffix_cons _ rest) last).trans unread
    rw [List.cons_append, piecesFrom, if_pos rfl, still]
    simp only [ih apart.tail (Nat.zero_le _), List.cons_append]
  | case5 c rest plain r found ih =>
    have still := (apart.same _ (List.suffix_refl _) (List.cons_ne_nil c rest)).trans found
    rw [List.cons_append] at still ⊢
    rw [piecesFrom, if_neg plain, still]
    have shorter : r.text.length - 1 ≤ rest.length := Nat.sub_le_of_le_add (readInside found)
    simp only [ih apart.tail shorter, List.cons_append]
  | case6 c rest plain unread ih =>
    have still := (apart.same _ (List.suffix_refl _) (List.cons_ne_nil c rest)).trans unread
    rw [List.cons_append] at still ⊢
    rw [piecesFrom, if_neg plain, still]
    simp only [ih apart.tail (Nat.zero_le _), List.cons_append]

end Pieces

end ConsoleShell.Variable
