/-! Computations that may fail, run over lists, and lists that grow at their end. -/
namespace ConsoleShell

theorem bindOk {ε α β : Type} {x : Except ε α} {f : α → Except ε β} {b : β} :
    x >>= f = .ok b ↔ ∃ a, x = .ok a ∧ f a = .ok b := by
  cases x with
  | error e => simp [bind, Except.bind]
  | ok a => simp [bind, Except.bind]

theorem mapErrorOk {ε ε' α : Type} {x : Except ε α} {f : ε → ε'} {a : α} :
    x.mapError f = .ok a ↔ x = .ok a := by
  cases x with
  | error e =>
    show Except.error (f e) = .ok a ↔ Except.error e = .ok a
    simp
  | ok b =>
    show (Except.ok b : Except ε' α) = .ok a ↔ Except.ok b = .ok a
    simp

theorem foldedKeeps {ε σ α : Type} {P : σ → Prop} {f : σ → α → Except ε σ} {items : List α}
    {s last : σ} (keeps : ∀ s a next, f s a = .ok next → P s → P next)
    (run : items.foldlM f s = .ok last) (h : P s) : P last := by
  induction items generalizing s with
  | nil =>
    cases run
    exact h
  | cons a rest ih =>
    rw [List.foldlM_cons] at run
    obtain ⟨next, first, later⟩ := bindOk.mp run
    exact ih later (keeps s a next first h)

theorem mappedFrom {ε α β : Type} {f : α → Except ε β} {items : List α} {out : List β}
    (run : items.mapM f = .ok out) {b : β} (mem : b ∈ out) : ∃ a ∈ items, f a = .ok b := by
  induction items generalizing out with
  | nil =>
    cases run
    contradiction
  | cons a rest ih =>
    rw [List.mapM_cons] at run
    obtain ⟨first, made, run⟩ := bindOk.mp run
    obtain ⟨others, later, same⟩ := bindOk.mp run
    cases same
    rcases List.mem_cons.mp mem with rfl | mem
    · exact ⟨a, List.mem_cons_self, made⟩
    · obtain ⟨source, listed, made⟩ := ih later mem
      exact ⟨source, List.mem_cons_of_mem _ listed, made⟩

theorem mappedAt {ε α β : Type} {f : α → Except ε β} {items : List α} {out : List β}
    (run : items.mapM f = .ok out) : out.length = items.length ∧
      ∀ (n : Nat) (a : α) (b : β), items[n]? = some a → out[n]? = some b → f a = .ok b := by
  induction items generalizing out with
  | nil =>
    cases run
    exact ⟨rfl, fun n a b found => by simp at found⟩
  | cons a rest ih =>
    rw [List.mapM_cons] at run
    obtain ⟨first, made, run⟩ := bindOk.mp run
    obtain ⟨others, later, same⟩ := bindOk.mp run
    cases same
    obtain ⟨length, places⟩ := ih later
    refine ⟨congrArg Nat.succ length, fun n x y source target => ?_⟩
    cases n with
    | zero =>
      cases source
      cases target
      exact made
    | succ n => exact places n x y source target

theorem mappedTo {ε α β : Type} {f : α → Except ε β} {items : List α} {out : List β}
    (run : items.mapM f = .ok out) {a : α} (mem : a ∈ items) : ∃ b ∈ out, f a = .ok b := by
  obtain ⟨n, inside, rfl⟩ := List.mem_iff_getElem.mp mem
  obtain ⟨length, places⟩ := mappedAt run
  have there : n < out.length := length ▸ inside
  exact ⟨out[n], List.getElem_mem there,
    places n _ _ (List.getElem?_eq_getElem inside) (List.getElem?_eq_getElem there)⟩

theorem mapsEach {ε α β : Type} {f : α → Except ε β} {items : List α} :
    (∃ out, items.mapM f = .ok out) ↔ ∀ a ∈ items, ∃ b, f a = .ok b := by
  constructor
  · rintro ⟨out, run⟩ a mem
    obtain ⟨b, -, made⟩ := mappedTo run mem
    exact ⟨b, made⟩
  · intro each
    induction items with
    | nil => exact ⟨[], rfl⟩
    | cons a rest ih =>
      obtain ⟨first, later⟩ := List.forall_mem_cons.mp each
      obtain ⟨b, made⟩ := first
      obtain ⟨others, run⟩ := ih later
      refine ⟨b :: others, ?_⟩
      rw [List.mapM_cons]
      exact bindOk.mpr ⟨b, made, bindOk.mpr ⟨others, run, rfl⟩⟩

theorem mappedLabels {ε α β γ : Type} {f : α → Except ε β} {items : List α} {out : List β}
    (run : items.mapM f = .ok out) {old : α → γ} {new : β → γ}
    (keeps : ∀ a b, f a = .ok b → new b = old a) : out.map new = items.map old := by
  obtain ⟨length, places⟩ := mappedAt run
  refine List.ext_getElem (by simpa using length) fun n left right => ?_
  rw [List.length_map] at left right
  rw [List.getElem_map, List.getElem_map]
  exact keeps _ _
    (places n _ _ (List.getElem?_eq_getElem right) (List.getElem?_eq_getElem left))

theorem eachAdded {α : Type} {P : α → Prop} {items : List α} {last : α}
    (before : ∀ a ∈ items, P a) (new : P last) : ∀ a ∈ items ++ [last], P a :=
  List.forall_mem_append.mpr ⟨before, List.forall_mem_singleton.mpr new⟩

theorem filterMapKept {α β : Type} {test : α → Bool} {f : α → Option β} {items : List α}
    (lost : ∀ a ∈ items, test a = false → f a = none) :
    (items.filter test).filterMap f = items.filterMap f := by
  induction items with
  | nil => rfl
  | cons a rest ih =>
    have later := ih fun b mem => lost b (List.mem_cons_of_mem _ mem)
    cases passed : test a with
    | true => rw [List.filter_cons_of_pos passed, List.filterMap_cons, List.filterMap_cons, later]
    | false =>
      rw [List.filter_cons_of_neg (by simp [passed]), List.filterMap_cons,
        lost a List.mem_cons_self passed, later]

end ConsoleShell
