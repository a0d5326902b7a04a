/-! A dictionary is a finite map that lists its entries in ascending order of their keys.
Lookups see the last value put under a key; putting and erasing touch no other key. -/
namespace ConsoleShell

structure Dict (κ α : Type) where
  entries : List (κ × α) := []
  deriving DecidableEq, Repr

namespace Dict

variable {κ α : Type}

def empty : Dict κ α := ⟨[]⟩

def keys (d : Dict κ α) : List κ := d.entries.map Prod.fst

def size (d : Dict κ α) : Nat := d.entries.length

section Keyed

variable [DecidableEq κ]

theorem lookupCons (key : κ) (entry : κ × α) (rest : List (κ × α)) :
    (entry :: rest).lookup key = if key = entry.1 then some entry.2 else rest.lookup key := by
  obtain ⟨k, v⟩ := entry
  show (bif key == k then some v else rest.lookup key) = _
  by_cases h : key = k
  · simp [h]
  · simp [h, beq_eq_false_iff_ne.mpr h]

def get? (d : Dict κ α) (key : κ) : Option α := d.entries.lookup key

def contains (d : Dict κ α) (key : κ) : Bool := (d.get? key).isSome

def erase (d : Dict κ α) (key : κ) : Dict κ α :=
  ⟨d.entries.filter fun entry => !decide (entry.1 = key)⟩

def modify (d : Dict κ α) (key : κ) (f : α → α) : Dict κ α :=
  ⟨d.entries.map fun entry => if entry.1 = key then (entry.1, f entry.2) else entry⟩

def keep (d : Dict κ α) (test : α → Bool) : Dict κ α :=
  ⟨d.entries.filter fun entry => test entry.2⟩

end Keyed

section Ordered

variable [DecidableEq κ] [LT κ] [DecidableLT κ]

/-- An entry takes the place of the one with its key, or stands before the first larger key. -/
def insertEntry (key : κ) (value : α) : List (κ × α) → List (κ × α)
  | [] => [(key, value)]
  | entry :: rest =>
    if key = entry.1 then (key, value) :: rest
    else if key < entry.1 then (key, value) :: entry :: rest
    else entry :: insertEntry key value rest

def insert (d : Dict κ α) (key : κ) (value : α) : Dict κ α :=
  ⟨insertEntry key value d.entries⟩

def ofList (entries : List (κ × α)) : Dict κ α :=
  entries.foldl (fun d entry => d.insert entry.1 entry.2) empty

theorem lookupInsertEntry (key other : κ) (value : α) (entries : List (κ × α)) :
    (insertEntry key value entries).lookup other =
      if other = key then some value else entries.lookup other := by
  induction entries with
  | nil => simp [insertEntry, lookupCons]
  | cons entry rest ih =>
    simp only [insertEntry]
    split
    · rename_i same
      by_cases h : other = key <;> simp [lookupCons, h, ← same]
    · rename_i different
      split
      · simp [lookupCons]
      · by_cases h : other = entry.1
        · simp [lookupCons, h, Ne.symm different]
        · simp [lookupCons, h, ih]

theorem getInsert (d : Dict κ α) (key other : κ) (value : α) :
    (d.insert key value).get? other = if other = key then some value else d.get? other :=
  lookupInsertEntry key other value d.entries

end Ordered

theorem getErase [DecidableEq κ] (d : Dict κ α) (key other : κ) :
    (d.erase key).get? other = if other = key then none else d.get? other := by
  simp only [get?, erase]
  induction d.entries with
  | nil => simp
  | cons entry rest ih =>
    rw [List.filter_cons]
    by_cases h : entry.1 = key
    · by_cases same : other = key
      · simpa [h, same] using ih
      · simp [lookupCons, h, ih, same]
    · by_cases same : other = entry.1
      · simp [lookupCons, h, same]
      · simp [lookupCons, h, ih, same]

theorem getModify [DecidableEq κ] (d : Dict κ α) (key other : κ) (f : α → α) :
    (d.modify key f).get? other =
      if other = key then (d.get? other).map f else d.get? other := by
  simp only [get?, modify]
  induction d.entries with
  | nil => simp
  | cons entry rest ih =>
    by_cases h : entry.1 = key <;> by_cases same : other = entry.1 <;>
      by_cases k : other = key <;> simp_all [lookupCons]

end Dict

end ConsoleShell
