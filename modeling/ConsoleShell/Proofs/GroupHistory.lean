import ConsoleShell.Proofs.Basic
import ConsoleShell.Proofs.ConsoleFeed
import Mathlib.Data.List.Induction
import Mathlib.Data.List.Nodup

/-! The groups of a buffer by its history. Whoever holds the number of a group finds that group under it until it is
removed, whatever is done to the others: numbers count up and are handed out once, and a group keeps its place and
its kind and shows the text that it was given last. -/
namespace ConsoleShell.GroupHistory
open ConsoleFeed

inductive Edit where
  | print (kind : OutputKind) (text : Text)
  | pushLines (kind : OutputKind) (lines : List Line)
  | update (id : GroupId) (text : Text)
  | delete (id : GroupId)
  | clear

namespace Edit

def run (b : Buffer) : Edit → Buffer
  | print kind text => (b.print kind text).2
  | pushLines kind lines => (b.pushLines kind lines).2
  | update id text => (b.update id text).2
  | delete id => (b.delete id).2
  | clear => b.clear

def issued? (b : Buffer) : Edit → Option GroupId
  | print kind text => some (b.print kind text).1
  | pushLines kind lines => some (b.pushLines kind lines).1
  | update _ _ | delete _ | clear => none

def content? : Edit → Option (OutputKind × List Line)
  | print kind text => some (kind, Render.text kind text)
  | pushLines kind lines => some (kind, lines)
  | update _ _ | delete _ | clear => none

def textFor? (id : GroupId) : Edit → Option Text
  | update other text => if other = id then some text else none
  | print _ _ | pushLines _ _ | delete _ | clear => none

def Removes (id : GroupId) : Edit → Prop
  | delete other => other = id
  | clear => True
  | print _ _ | pushLines _ _ | update _ _ => False

end Edit

def after (edits : List Edit) : Buffer := edits.foldl Edit.run .empty

def issuedFrom (b : Buffer) : List Edit → List GroupId
  | [] => []
  | e :: rest => (e.issued? b).toList ++ issuedFrom (e.run b) rest

def issued (edits : List Edit) : List GroupId := issuedFrom .empty edits

def latest? (id : GroupId) (edits : List Edit) : Option Text := (edits.filterMap (Edit.textFor? id)).getLast?

/- A group as edits leave it: one of them makes it, none after that removes it, and it has the lines of the last
text that it is given, or else those that it was made of. -/
def Stands (edits : List Edit) (g : Group) : Prop :=
  ∃ before made later lines, edits = before ++ made :: later ∧ made.issued? (after before) = some g.id ∧
    made.content? = some (g.kind, lines) ∧ (∀ e ∈ later, ¬ e.Removes g.id) ∧
    g.lines = ((latest? g.id later).map (Render.text g.kind)).getD lines

def given (text : Text) (g : Group) : Group := { g with lines := Render.text g.kind text }

variable {b : Buffer} {g : Group} {id : GroupId} {text : Text} {edits : List Edit} {e : Edit}

/- Of the numbers handed out so far some are still in use, in the order in which they were handed out. -/
def Numbered (b : Buffer) : Prop := (b.groups.map fun g => g.id.number).Sublist (List.range' 1 b.lastId)

theorem numbersAscend (numbered : Numbered b) : b.groups.Pairwise fun g h => g.id.number < h.id.number :=
  List.pairwise_map.mp ((List.pairwise_lt_range').sublist numbered)

theorem numberedSame (numbered : Numbered b) {g h : Group} (left : g ∈ b.groups) (right : h ∈ b.groups)
    (same : g.id = h.id) : g = h := by
  have distinct : (b.groups.map fun g => g.id.number).Nodup := numbered.nodup List.nodup_range'
  exact List.inj_on_of_nodup_map distinct left right (congrArg GroupId.number same)

theorem numberedFound (numbered : Numbered b) (mem : g ∈ b.groups) : b.group? g.id = some g := by
  cases found : b.group? g.id with
  | none => exact absurd (List.find?_eq_none.mp found g mem) (by simp)
  | some h => rw [numberedSame numbered (List.mem_of_find?_eq_some found) mem (groupFound found)]

theorem updateGroups (numbered : Numbered b) (id : GroupId) (text : Text) :
    (b.update id text).2.groups = b.groups.map fun g => if g.id = id then given text g else g := by
  have untouched (kept : ∀ g ∈ b.groups, g.id = id → given text g = g) :
      b.groups = b.groups.map fun g => if g.id = id then given text g else g := by
    have each : ∀ g ∈ b.groups, (if g.id = id then given text g else g) = g := by
      intro g mem
      split
      · exact kept g mem ‹_›
      · rfl
    rw [List.map_congr_left each, List.map_id']
  unfold Buffer.update
  cases found : b.group? id with
  | none =>
    refine untouched fun g mem same => ?_
    rw [← same, numberedFound numbered mem] at found
    contradiction
  | some group =>
    have only : ∀ g ∈ b.groups, g.id = id → g = group := fun g mem same =>
      numberedSame numbered mem (List.mem_of_find?_eq_some found) (same.trans (groupFound found).symm)
    dsimp only
    split
    · rename_i same
      refine untouched fun g mem named => ?_
      rw [only g mem named, given, ← same]
    · refine List.map_congr_left fun g mem => ?_
      split
      · rename_i named
        rw [only g mem named]
        rfl
      · rfl

theorem updateLast (id : GroupId) (text : Text) : (b.update id text).2.lastId = b.lastId := by
  unfold Buffer.update
  split
  · rfl
  · dsimp only
    split <;> rfl

theorem numberedUpdate (numbered : Numbered b) (id : GroupId) (text : Text) : Numbered (b.update id text).2 := by
  unfold Numbered at numbered ⊢
  have kept (g : Group) : (if g.id = id then given text g else g).id = g.id := by
    split <;> rfl
  rw [updateGroups numbered, updateLast, List.map_map]
  simpa only [Function.comp_def, kept] using numbered

structure Updates (b : Buffer) (id : GroupId) (text : Text) : Prop where
  groups : (b.update id text).2.groups = b.groups.map fun g => if g.id = id then given text g else g
  missing : (b.update id text).1 = .missing ↔ ∀ g ∈ b.groups, g.id ≠ id
  again : (b.update id text).1 ≠ .missing →
    (b.update id text).2.update id text = (.unchanged, (b.update id text).2)

theorem updateMissing : (b.update id text).1 = .missing ↔ ∀ g ∈ b.groups, g.id ≠ id := by
  have absent : (∀ g ∈ b.groups, g.id ≠ id) ↔ b.group? id = none := by
    simp [Buffer.group?]
  rw [absent]
  unfold Buffer.update
  cases b.group? id with
  | none => simp
  | some group =>
    dsimp only
    split <;> simp

theorem updateSettled (found : b.group? id = some g) (same : g.lines = Render.text g.kind text) :
    b.update id text = (.unchanged, b) := by
  simp [Buffer.update, found, same]

theorem updates (numbered : Numbered b) (id : GroupId) (text : Text) : Updates b id text where
  groups := updateGroups numbered id text
  missing := updateMissing
  again there := by
    obtain ⟨g, mem, named⟩ : ∃ g ∈ b.groups, g.id = id := by
      by_contra absent
      exact there (updateMissing.mpr fun g mem named => absent ⟨g, mem, named⟩)
    have replaced : given text g ∈ (b.update id text).2.groups := by
      rw [updateGroups numbered]
      exact List.mem_map.mpr ⟨g, mem, if_pos named⟩
    have found := numberedFound (numberedUpdate numbered id text) replaced
    exact updateSettled (named ▸ found) rfl

theorem numberedPush (numbered : Numbered b) (kind : OutputKind) (lines : List Line) :
    Numbered (b.pushLines kind lines).2 := by
  unfold Numbered at numbered ⊢
  have next : List.range' 1 (b.lastId + 1) = List.range' 1 b.lastId ++ [b.lastId + 1] := by
    rw [List.range'_1_concat, Nat.add_comm 1]
  simpa only [Buffer.pushLines, List.map_append, List.map_cons, List.map_nil, next] using numbered.append_right _

theorem numberedRun (numbered : Numbered b) (e : Edit) : Numbered (e.run b) := by
  cases e with
  | print kind text => exact numberedPush numbered kind (Render.text kind text)
  | pushLines kind lines => exact numberedPush numbered kind lines
  | update id text => exact numberedUpdate numbered id text
  | delete id => exact (List.filter_sublist.map _).trans numbered
  | clear => exact List.nil_sublist _

theorem numberedAfter (edits : List Edit) : Numbered (after edits) := by
  induction edits using List.reverseRecOn with
  | nil => exact List.Sublist.slnil
  | append_singleton before e ih =>
    unfold after
    rw [List.foldl_append]
    exact numberedRun ih e

theorem lastRun (b : Buffer) (e : Edit) :
    ((e.issued? b).toList.map GroupId.number) = List.range' (b.lastId + 1) (e.issued? b).toList.length ∧
    (e.run b).lastId = b.lastId + (e.issued? b).toList.length := by
  cases e with
  | print kind text => exact ⟨rfl, rfl⟩
  | pushLines kind lines => exact ⟨rfl, rfl⟩
  | update id text => exact ⟨rfl, updateLast id text⟩
  | delete id => exact ⟨rfl, rfl⟩
  | clear => exact ⟨rfl, rfl⟩

theorem issuedNumbers (b : Buffer) (edits : List Edit) :
    (issuedFrom b edits).map GroupId.number = List.range' (b.lastId + 1) (issuedFrom b edits).length := by
  induction edits generalizing b with
  | nil => rfl
  | cons e rest ih =>
    obtain ⟨first, last⟩ := lastRun b e
    rw [issuedFrom, List.map_append, first, ih, last, List.length_append, ← List.range'_append_1]
    congr 2
    omega

def edited (e : Edit) (g : Group) : Group := ((e.textFor? g.id).map (given · g)).getD g

theorem editedNamed (e : Edit) (g : Group) : (edited e g).id = g.id ∧ (edited e g).kind = g.kind := by
  unfold edited
  cases e.textFor? g.id <;> exact ⟨rfl, rfl⟩

/- Where a group comes from: it is an old one that was not removed, as the edit leaves it, or the edit makes it. -/
def Comes (b : Buffer) (e : Edit) (g : Group) : Prop :=
  (∃ old ∈ b.groups, ¬ e.Removes old.id ∧ edited e old = g) ∨
    e.issued? b = some g.id ∧ e.content? = some (g.kind, g.lines)

theorem pushMember (b : Buffer) (kind : OutputKind) (lines : List Line) :
    g ∈ (b.pushLines kind lines).2.groups ↔ Comes b (.pushLines kind lines) g := by
  have new : (b.pushLines kind lines).2.groups = b.groups ++ [⟨(b.pushLines kind lines).1, kind, lines⟩] := rfl
  have made : g = ⟨(b.pushLines kind lines).1, kind, lines⟩ ↔
      (Edit.pushLines kind lines).issued? b = some g.id ∧
        (Edit.pushLines kind lines).content? = some (g.kind, g.lines) := by
    obtain ⟨id, ownKind, ownLines⟩ := g
    simp [Edit.issued?, Edit.content?, eq_comm]
  have kept : g ∈ b.groups ↔
      ∃ old ∈ b.groups, ¬ (Edit.pushLines kind lines).Removes old.id ∧ edited (.pushLines kind lines) old = g := by
    simp [Edit.Removes, edited, Edit.textFor?]
  rw [new, List.mem_append, List.mem_singleton, made, kept]
  rfl

theorem runMember (numbered : Numbered b) (e : Edit) : g ∈ (e.run b).groups ↔ Comes b e g := by
  cases e with
  | print kind text => exact pushMember b kind (Render.text kind text)
  | pushLines kind lines => exact pushMember b kind lines
  | update id text =>
    have replaced (old : Group) : edited (.update id text) old = if old.id = id then given text old else old := by
      unfold edited Edit.textFor?
      by_cases named : old.id = id
      · simp [named]
      · simp [named, Ne.symm named]
    show g ∈ (b.update id text).2.groups ↔ _
    simp [Comes, updateGroups numbered, Edit.Removes, Edit.issued?, replaced]
  | delete id =>
    have other (g : Group) : (!decide (g.id = id)) = true ↔ ¬ (Edit.delete id).Removes g.id := by
      rw [Bool.not_eq_true', decide_eq_false_iff_not]
      exact not_congr eq_comm
    show g ∈ b.groups.filter (fun g => !decide (g.id = id)) ↔ _
    simp [List.mem_filter, Comes, other, edited, Edit.textFor?, Edit.issued?]
  | clear => simp [Comes, Edit.run, Buffer.clear, Edit.Removes, Edit.issued?]

theorem afterAdded (edits : List Edit) (e : Edit) : after (edits ++ [e]) = e.run (after edits) := by
  simp [after]

theorem latestAdded (id : GroupId) (edits : List Edit) (e : Edit) :
    latest? id (edits ++ [e]) = (e.textFor? id).or (latest? id edits) := by
  unfold latest?
  rw [List.filterMap_append, List.getLast?_append]
  cases found : e.textFor? id <;> simp [found]

theorem editedLines (e : Edit) (old : Group) {later : List Edit} {lines : List Line}
    (shown : old.lines = ((latest? old.id later).map (Render.text old.kind)).getD lines) :
    (edited e old).lines = ((latest? old.id (later ++ [e])).map (Render.text old.kind)).getD lines := by
  rw [latestAdded]
  unfold edited
  cases e.textFor? old.id with
  | none => exact shown
  | some text => rfl

theorem standsAdded : Stands (edits ++ [e]) g ↔
    (∃ old, Stands edits old ∧ ¬ e.Removes old.id ∧ edited e old = g) ∨
      e.issued? (after edits) = some g.id ∧ e.content? = some (g.kind, g.lines) := by
  constructor
  · rintro ⟨before, made, later, lines, whole, number, content, stays, shown⟩
    rcases List.eq_nil_or_concat later with rfl | ⟨earlier, last, rfl⟩
    · obtain ⟨rfl, same⟩ := List.append_inj' whole rfl
      cases same
      have first : g.lines = lines := shown
      exact .inr ⟨number, first ▸ content⟩
    · rw [List.concat_eq_append] at whole stays shown
      have cut : edits ++ [e] = (before ++ made :: earlier) ++ [last] := by simpa using whole
      obtain ⟨rfl, same⟩ := List.append_inj' cut rfl
      cases same
      obtain ⟨stays, kept⟩ := List.forall_mem_append.mp stays
      let old : Group := { g with lines := ((latest? g.id earlier).map (Render.text g.kind)).getD lines }
      have left : edited e old = { g with lines := (edited e old).lines } := by
        unfold edited
        cases e.textFor? old.id <;> rfl
      refine .inl ⟨old, ⟨before, made, earlier, lines, rfl, number, content, stays, rfl⟩,
        kept e List.mem_cons_self, ?_⟩
      rw [left, editedLines e old rfl, ← shown]
  · rintro (⟨old, ⟨before, made, later, lines, rfl, number, content, stays, shown⟩, kept, rfl⟩ | ⟨number, content⟩)
    · obtain ⟨sameId, sameKind⟩ := editedNamed e old
      refine ⟨before, made, later ++ [e], lines, by simp, by rwa [sameId], by rwa [sameKind], ?_, ?_⟩
      · rw [sameId]
        exact eachAdded stays kept
      · rw [sameId, sameKind]
        exact editedLines e old shown
    · exact ⟨edits, e, [], g.lines, rfl, number, content, by simp, rfl⟩

theorem standsIff (edits : List Edit) (g : Group) : g ∈ (after edits).groups ↔ Stands edits g := by
  induction edits using List.reverseRecOn generalizing g with
  | nil =>
    refine iff_of_false (List.not_mem_nil) ?_
    rintro ⟨before, made, later, lines, whole, -⟩
    simp at whole
  | append_singleton edits e ih =>
    rw [afterAdded, runMember (numberedAfter edits), standsAdded]
    simp only [Comes, ih]

structure Addressable (edits : List Edit) : Prop where
  once : (issued edits).Pairwise fun a b => a.number < b.number
  ascends : (after edits).groups.Pairwise fun g h => g.id.number < h.id.number
  found : ∀ g ∈ (after edits).groups, (after edits).group? g.id = some g
  updates : ∀ id text, Updates (after edits) id text
  stands : ∀ g, g ∈ (after edits).groups ↔ Stands edits g

theorem staysAddressable (edits : List Edit) : Addressable edits where
  once := by
    have numbers := issuedNumbers .empty edits
    exact List.pairwise_map.mp (numbers ▸ List.pairwise_lt_range')
  ascends := numbersAscend (numberedAfter edits)
  found _ mem := numberedFound (numberedAfter edits) mem
  updates := updates (numberedAfter edits)
  stands := standsIff edits

theorem staysAddressableRewritten :
    let edits : List Edit := [.print .output "10%", .print .error "bad", .update ⟨2⟩ "worse", .delete ⟨1⟩,
      .print .output "late", .update ⟨2⟩ "worst", .update ⟨1⟩ "gone"]
    let group : Group := ⟨⟨2⟩, .error, Render.text .error "worst"⟩
    let next := ((after edits).update ⟨2⟩ "mended").2
    issued edits = [⟨1⟩, ⟨2⟩, ⟨3⟩] ∧ (after edits).group? ⟨2⟩ = some group ∧ Stands edits group ∧
      ((after edits).update ⟨2⟩ "mended").1 = .changed ∧ next.update ⟨2⟩ "mended" = (.unchanged, next) := by
  intro edits group next
  have addressable := staysAddressable edits
  have there : group ∈ (after edits).groups := by decide +kernel
  have changed : ((after edits).update ⟨2⟩ "mended").1 = .changed := by decide +kernel
  refine ⟨by decide +kernel, addressable.found group there, (addressable.stands group).mp there, changed, ?_⟩
  exact (addressable.updates ⟨2⟩ "mended").again (changed.trans_ne (by decide))

end ConsoleShell.GroupHistory
