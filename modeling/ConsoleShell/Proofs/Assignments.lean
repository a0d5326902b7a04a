import ConsoleShell.Proofs.EscapedReferences
import ConsoleShell.Proofs.QuotedEcho

/-! Assignment lines. A line sets the one binding that it reports or none at all. A value between single
quotes is stored as it is typed, whatever is in it, and a reference between double quotes gives it back as
one word. -/
namespace ConsoleShell.Assignments
open Variable
open WordGrammar (Blank)

def binding (v : Variables) : AssignmentTarget → Text → Option Text
  | .session, name => v.session.get? name
  | .environment, name => v.environment.get? name

def stored (v : Variables) (a : Assignment) : Variables :=
  match a.target with
  | .session => v.setSession a.name a.value
  | .environment => v.setEnvironment a.name a.value

def afterLine (v : Variables) (line : Text) : Variables :=
  match v.assign? line with
  | some (_, after) => after
  | none => v

def Opens : AssignmentTarget → Text → Prop
  | .session, opening => opening = []
  | .environment, opening => ∃ gap, Blank gap ∧ gap ≠ [] ∧ opening = "export" ++ gap

def quotedOnce (value : Text) : Text := '\'' :: (value ++ ['\''])

def readsBack : AssignmentTarget → Text → Reference
  | .session, name => ⟨.braced, name⟩
  | .environment, name => ⟨.environmentPrefixed, name⟩

variable {name value : Text} {target : AssignmentTarget} {opening : Text}

theorem continuesBetween {c : Char} (continues : continuesName c = true) : 48 ≤ c.toNat ∧ c.toNat ≤ 122 := by
  have between (low high : Char) (least : 48 ≤ low.toNat) (most : high.toNat ≤ 122)
      (above : low.val ≤ c.val) (below : c.val ≤ high.val) : 48 ≤ c.toNat ∧ c.toNat ≤ 122 :=
    ⟨Nat.le_trans least (UInt32.le_iff_toNat_le.mp above),
      Nat.le_trans (UInt32.le_iff_toNat_le.mp below) most⟩
  change ((c.isUpper || c.isLower || c.isDigit) || decide (c = '_')) = true at continues
  simp only [Bool.or_eq_true] at continues
  rcases continues with ((upper | lower) | digit) | line
  · obtain ⟨above, below⟩ := of_decide_eq_true upper
    exact between 'A' 'Z' (by decide) (by decide) above below
  · obtain ⟨above, below⟩ := Bool.and_eq_true_iff.mp lower
    exact between 'a' 'z' (by decide) (by decide) (of_decide_eq_true above) (of_decide_eq_true below)
  · obtain ⟨above, below⟩ := Bool.and_eq_true_iff.mp digit
    exact between '0' '9' (by decide) (by decide) (of_decide_eq_true above) (of_decide_eq_true below)
  · rw [of_decide_eq_true line]
    decide

theorem continuesVisible {c : Char} (continues : continuesName c = true) : isBlank c = false := by
  obtain ⟨low, high⟩ := continuesBetween continues
  simp only [isBlank, Bool.or_eq_false_iff, Bool.and_eq_false_iff, decide_eq_false_iff_not,
    beq_eq_false_iff_ne]
  omega

theorem nameContinues (proper : isName name = true) : ∀ c ∈ name, continuesName c = true := by
  cases name with
  | nil => simp
  | cons first rest =>
    obtain ⟨starts, continues⟩ := Bool.and_eq_true_iff.mp proper
    exact List.forall_mem_cons.mpr ⟨startsContinues starts, List.all_eq_true.mp continues⟩

theorem nameVisible (proper : isName name = true) : ∀ c ∈ name, isBlank c = false :=
  fun c mem => continuesVisible (nameContinues proper c mem)

theorem startVisible (proper : isName name = true) (behind : Text) :
    Text.trimStart (name ++ behind) = name ++ behind := by
  cases name with
  | nil => simp [isName] at proper
  | cons first rest =>
    have visible := nameVisible proper first List.mem_cons_self
    simp [Text.trimStart, visible]

theorem startBehind {gap : Text} (blank : Blank gap) (line : Text) :
    Text.trimStart (gap ++ line) = Text.trimStart line :=
  List.dropWhile_append_of_pos blank

theorem readBound (proper : isName name = true) (line : '\n' ∉ value) :
    Assignment.readBinding? (name ++ '=' :: value) = some (name, Text.trim value) := by
  have named := namedBefore proper (endsAt (by decide : continuesName '=' = false) value)
  unfold Assignment.readBinding?
  rw [named]
  simp [Text.dropStart?, line]

/- A name may begin with the word that makes a line an export; no blank follows the word there. -/
theorem exportsNothing (proper : isName name = true) (value : Text) :
    Assignment.readExport? (name ++ '=' :: value) = none := by
  unfold Assignment.readExport?
  rw [beginsAcross (by decide)]
  cases exports : Text.dropStart? "export" name with
  | none => rfl
  | some rest =>
    have inside : ∀ c ∈ rest, isBlank c = false := fun c mem =>
      nameVisible proper c (by rw [droppedStart exports]; exact List.mem_append_right _ mem)
    cases rest with
    | nil => rfl
    | cons first later => simp [inside first]

theorem readNamed (proper : isName name = true) (line : '\n' ∉ value) :
    Assignment.read? (name ++ '=' :: value) = some ⟨.session, name, Text.trim value⟩ := by
  unfold Assignment.read?
  simp only [startVisible proper, exportsNothing proper, readBound proper line, Option.map_some]

theorem readOpened (opens : Opens target opening) (proper : isName name = true) (line : '\n' ∉ value) :
    Assignment.read? (opening ++ (name ++ '=' :: value)) = some ⟨target, name, Text.trim value⟩ := by
  cases target with
  | session =>
    subst opens
    exact readNamed proper line
  | environment =>
    obtain ⟨gap, blank, apart, rfl⟩ := opens
    obtain ⟨c, rest, rfl⟩ := List.exists_cons_of_ne_nil apart
    have first : isBlank c = true := blank c List.mem_cons_self
    have bound : Assignment.readExport? ("export" ++ (c :: rest ++ (name ++ '=' :: value))) =
        some (name, Text.trim value) := by
      unfold Assignment.readExport?
      rw [droppedBefore]
      simp only [Option.bind_eq_bind, Option.bind_some, startBehind blank, startVisible proper,
        readBound proper line]
      simp [first]
    have start : Text.trimStart ("export" ++ (c :: rest ++ (name ++ '=' :: value))) =
        "export" ++ (c :: rest ++ (name ++ '=' :: value)) := startVisible rfl _
    unfold Assignment.read?
    rw [List.append_assoc]
    simp only [start, bound]

theorem assignStored {v w : Variables} {line : Text} {a : Assignment} (assigns : v.assign? line = some (a, w)) :
    w = stored v a := by
  unfold Variables.assign? at assigns
  cases read : Assignment.read? line with
  | none =>
    rw [read] at assigns
    contradiction
  | some typed =>
    obtain ⟨target, name, value⟩ := typed
    rw [read] at assigns
    cases target <;> cases assigns <;> rfl

theorem bindingStored (v : Variables) (a : Assignment) (target : AssignmentTarget) (name : Text) :
    binding (stored v a) target name =
      if target = a.target ∧ name = a.name then some a.value else binding v target name := by
  obtain ⟨place, other, value⟩ := a
  cases place <;> cases target <;>
    simp [binding, stored, Variables.setSession, Variables.setEnvironment, Dict.getInsert]

theorem trimQuotedOnce (value : Text) : Text.trim (quotedOnce value) = quotedOnce value := by
  have start : Text.trimStart (quotedOnce value) = quotedOnce value := rfl
  unfold Text.trim
  rw [start]
  exact QuotedEcho.trimEndVisible ('\'' :: value) rfl

theorem resolveQuotedOnce (v : Variables) (value : Text) :
    Assignment.resolve v (quotedOnce value) = value := by
  have double : Assignment.between? '"' (quotedOnce value) = none := rfl
  have single : Assignment.between? '\'' (quotedOnce value) = some value := by
    have inside : Text.dropEnd? ['\''] (value ++ ['\'']) = some value := by simp [Text.dropEnd?]
    exact inside
  unfold Assignment.resolve
  rw [double, single]

theorem assignQuoted (v : Variables) (opens : Opens target opening) (proper : isName name = true)
    (line : '\n' ∉ value) : v.assign? (opening ++ (name ++ '=' :: quotedOnce value)) =
      some (⟨target, name, value⟩, stored v ⟨target, name, value⟩) := by
  have same : '\n' ∉ quotedOnce value := by simpa [quotedOnce] using line
  unfold Variables.assign?
  rw [readOpened opens proper same, trimQuotedOnce]
  cases target <;> simp [resolveQuotedOnce, stored]

theorem valueStored (v : Variables) (target : AssignmentTarget) (name value : Text) :
    (stored v ⟨target, name, value⟩).value (readsBack target name) = value := by
  cases target <;> simp [Variables.value, Variables.lookup, readsBack, stored, Reference.readsEnvironmentOnly,
    Variables.setSession, Variables.setEnvironment, Dict.getInsert]

theorem assignsExactly (v : Variables) (opens : Opens target opening) (proper : isName name = true)
    (oneLine : '\n' ∉ value) :
    let after := afterLine v (opening ++ (name ++ '=' :: quotedOnce value))
    (v.assign? (opening ++ (name ++ '=' :: quotedOnce value))).map Prod.fst = some ⟨target, name, value⟩ ∧
      binding after target name = some value ∧
      tokenize (after.expandLine ('"' :: ((readsBack target name).text ++ ['"']))) = .ok [value] ∧
      ∀ line, (v.assign? line = none → afterLine v line = v) ∧
        ∀ a w, v.assign? line = some (a, w) → ∀ place other, binding (afterLine v line) place other =
          if place = a.target ∧ other = a.name then some a.value else binding v place other := by
  intro after
  have assigned := assignQuoted v opens proper oneLine
  have same : after = stored v ⟨target, name, value⟩ := by simp only [after, afterLine, assigned]
  have named : isName (readsBack target name).name = true := by cases target <;> exact proper
  refine ⟨by rw [assigned]; rfl, ?_, ?_, fun line => ⟨fun unassigned => ?_, fun a w assigns place other => ?_⟩⟩
  · simp [same, bindingStored]
  · have split := EscapedReferences.splitsQuotedBehind after named 0
    rw [same] at split ⊢
    rwa [if_pos rfl, valueStored] at split
  · unfold afterLine
    rw [unassigned]
  · unfold afterLine
    rw [assigns, assignStored assigns]
    exact bindingStored v a place other

theorem assignsExactlySpecial :
    let v : Variables := { session := .ofList [("N", "1")] }
    let after := afterLine v "export \tN=' it's \"$N\" \\ '"
    after = { v with environment := .ofList [("N", " it's \"$N\" \\ ")] } ∧
      tokenize (after.expandLine "\"$\x7bENV:N\x7d\"") = .ok [" it's \"$N\" \\ "] ∧
      (Variables.assign? v "export=''").map Prod.fst = some ⟨.session, "export", []⟩ := by
  intro v after
  have opens : Opens .environment "export \t" := ⟨" \t", by simp [Blank, isBlank], by decide, rfl⟩
  obtain ⟨-, -, split, -⟩ :=
    @assignsExactly "N" " it's \"$N\" \\ " .environment "export \t" v opens rfl (by decide)
  obtain ⟨assigned, -⟩ := @assignsExactly "export" [] .session [] v rfl rfl (by decide)
  exact ⟨by decide, split, assigned⟩

end ConsoleShell.Assignments
