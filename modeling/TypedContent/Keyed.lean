/-!
# Maps from strings

A map is the list of its entries in increasing order of their keys, one for
each key. Strings are ordered by scalar values. Two maps with the same
entries are equal, so maps can be compared and printed without a choice of
order.
-/

namespace TypedContent

variable {α : Type}

/-! ## Increasing entries -/

/-- The keys increase strictly. -/
def Increasing (entries : List (String × α)) : Prop :=
  entries.Pairwise fun a b => a.1 < b.1

/-- Set the value at a key, among increasing entries. -/
def insertEntry (key : String) (value : α) : List (String × α) → List (String × α)
  | [] => [(key, value)]
  | (k, v) :: rest =>
    if key = k then (key, value) :: rest
    else if key < k then (key, value) :: (k, v) :: rest
    else (k, v) :: insertEntry key value rest

theorem lt_of_not_lt_of_ne {a b : String} (hlt : ¬ a < b) (hne : a ≠ b) : b < a := by
  rw [← String.not_le]
  exact fun hle => hne (String.le_antisymm hle (String.not_lt.1 hlt))

/-- Every key of the new entries is the inserted one or an old one. -/
theorem mem_insertEntry {key : String} {value : α} {entries : List (String × α)}
    {e : String × α} (h : e ∈ insertEntry key value entries) :
    e = (key, value) ∨ e ∈ entries := by
  induction entries with
  | nil => exact Or.inl (List.mem_singleton.1 h)
  | cons head rest ih =>
    obtain ⟨k, v⟩ := head
    rw [insertEntry] at h
    split at h
    · exact (List.mem_cons.1 h).imp_right (List.mem_cons_of_mem _)
    · split at h
      · exact List.mem_cons.1 h
      · rcases List.mem_cons.1 h with h | h
        · exact Or.inr (h ▸ List.mem_cons_self)
        · exact (ih h).imp_right (List.mem_cons_of_mem _)

theorem increasing_insertEntry (key : String) (value : α) {entries : List (String × α)}
    (h : Increasing entries) : Increasing (insertEntry key value entries) := by
  induction entries with
  | nil => exact List.pairwise_singleton _ _
  | cons head rest ih =>
    obtain ⟨k, v⟩ := head
    obtain ⟨hhead, hrest⟩ := List.pairwise_cons.1 h
    rw [insertEntry]
    split
    · rename_i heq
      subst heq
      exact List.pairwise_cons.2 ⟨hhead, hrest⟩
    · rename_i hne
      split
      · rename_i hlt
        refine List.pairwise_cons.2 ⟨fun e he => ?_, h⟩
        rcases List.mem_cons.1 he with rfl | he
        · exact hlt
        · exact String.lt_trans hlt (hhead e he)
      · rename_i hnlt
        refine List.pairwise_cons.2 ⟨fun e he => ?_, ih hrest⟩
        rcases mem_insertEntry he with rfl | he
        · exact lt_of_not_lt_of_ne hnlt hne
        · exact hhead e he

theorem lookup_entry_cons (key k : String) (v : α) (rest : List (String × α)) :
    ((k, v) :: rest).lookup key = if key = k then some v else rest.lookup key := by
  rw [List.lookup_cons]
  by_cases h : key = k
  · simp [h]
  · have hne : (key == k) = false := by simpa using h
    simp [hne, h]

theorem lookup_insertEntry (key other : String) (value : α)
    (entries : List (String × α)) :
    (insertEntry key value entries).lookup other = if other = key then some value
      else entries.lookup other := by
  induction entries with
  | nil => rw [insertEntry, lookup_entry_cons]
  | cons head rest ih =>
    obtain ⟨k, v⟩ := head
    rw [insertEntry]
    split
    · rename_i hk
      subst hk
      by_cases h : other = key <;> simp [lookup_entry_cons, h]
    · rename_i hk
      split
      · rw [lookup_entry_cons]
      · rw [lookup_entry_cons, lookup_entry_cons, ih]
        by_cases h : other = k
        · subst h
          simp [Ne.symm hk]
        · simp [h]

/-! ## Maps -/

/-- A map from strings. -/
structure Keyed (α : Type) where
  entries : List (String × α)
  increasing : Increasing entries
deriving DecidableEq, Repr

namespace Keyed

def empty : Keyed α :=
  ⟨[], List.Pairwise.nil⟩

/-- Set the value at a key. -/
def insert (key : String) (value : α) (m : Keyed α) : Keyed α :=
  ⟨insertEntry key value m.entries, increasing_insertEntry key value m.increasing⟩

def find? (key : String) (m : Keyed α) : Option α :=
  m.entries.lookup key

/-- Apply `f` to the value at a key, or to `fallback` when there is none. -/
def modify (key : String) (fallback : α) (f : α → α) (m : Keyed α) : Keyed α :=
  m.insert key (f ((m.find? key).getD fallback))

/-- The map of a list of entries; the last of several entries with the same
key counts. -/
def ofList (entries : List (String × α)) : Keyed α :=
  entries.foldl (fun m (k, v) => m.insert k v) empty

@[simp] theorem find?_empty (key : String) : (empty : Keyed α).find? key = none := rfl

theorem find?_insert (key other : String) (value : α) (m : Keyed α) :
    (m.insert key value).find? other = if other = key then some value
      else m.find? other :=
  lookup_insertEntry key other value m.entries

end Keyed

/-! ## Sorting -/

/-- Order a list by a string key; entries with equal keys keep their
order. -/
def sortByKey (key : α → String) (xs : List α) : List α :=
  xs.mergeSort fun a b => decide (key a ≤ key b)

theorem sortByKey_perm (key : α → String) (xs : List α) : (sortByKey key xs).Perm xs :=
  List.mergeSort_perm xs _

end TypedContent
