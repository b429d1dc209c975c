import Mathlib.Data.List.Forall2
import TypedContent.Keyed

/-!
# Maps and what is found in them

A map is known by what is found at each key. If what is found in two maps is
related at each key, the two lists of entries are related one by one
(`forall₂_of_lookup`); so maps in which the same is found have the same
entries, and maps that differ at one key only have the same other entries
(`filter_entries_eq`).
-/

namespace TypedContent

open List

variable {α β : Type}

theorem lookup_eq_none_of_lt {key : String} {entries : List (String × α)}
    (h : ∀ e ∈ entries, key < e.1) :
    entries.lookup key = none := by
  induction entries with
  | nil => rfl
  | cons head rest ih =>
    obtain ⟨k, v⟩ := head
    obtain ⟨hhead, hrest⟩ := forall_mem_cons.1 h
    have hne : key ≠ k := fun heq => String.lt_irrefl key (heq ▸ hhead)
    rw [lookup_entry_cons, if_neg hne, ih hrest]

/-- Keys below the first one are not there. -/
theorem Increasing.le_of_lookup {k key : String} {v value : α}
    {rest : List (String × α)} (h : Increasing ((k, v) :: rest))
    (hfound : ((k, v) :: rest).lookup key = some value) :
    k ≤ key := by
  refine String.not_lt.1 fun hlt => ?_
  obtain ⟨hhead, -⟩ := pairwise_cons.1 h
  have hnone : ((k, v) :: rest).lookup key = none :=
    lookup_eq_none_of_lt
      (forall_mem_cons.2 ⟨hlt, fun e he => String.lt_trans hlt (hhead e he)⟩)
  rw [hnone] at hfound
  cases hfound

/-- Increasing entries are related one by one if what is found among them is
related at each key. -/
theorem forall₂_of_lookup {R : String → α → β → Prop} {entries : List (String × α)}
    {entries' : List (String × β)} (h : Increasing entries) (h' : Increasing entries')
    (hfound : ∀ key, Option.Rel (R key) (entries.lookup key) (entries'.lookup key)) :
    List.Forall₂ (fun e e' => e.1 = e'.1 ∧ R e.1 e.2 e'.2) entries entries' := by
  induction entries generalizing entries' with
  | nil =>
    cases entries' with
    | nil => exact .nil
    | cons head' rest' =>
      have hhead := hfound head'.1
      rw [lookup_entry_cons, if_pos rfl] at hhead
      cases hhead
  | cons head rest ih =>
    obtain ⟨k, v⟩ := head
    have hhead := hfound k
    rw [lookup_entry_cons k k v rest, if_pos rfl] at hhead
    cases entries' with
    | nil => cases hhead
    | cons head' rest' =>
      obtain ⟨k', v'⟩ := head'
      -- The first keys are the same, as each of them is found in the other
      -- list.
      have hle' : k' ≤ k := by
        cases hfirst : ((k', v') :: rest').lookup k with
        | none => rw [hfirst] at hhead; cases hhead
        | some value => exact h'.le_of_lookup hfirst
      have hle : k ≤ k' := by
        have hhead' := hfound k'
        rw [lookup_entry_cons k' k' v' rest', if_pos rfl] at hhead'
        cases hfirst : ((k, v) :: rest).lookup k' with
        | none => rw [hfirst] at hhead'; cases hhead'
        | some value => exact h.le_of_lookup hfirst
      obtain rfl : k = k' := String.le_antisymm hle hle'
      obtain ⟨hlt, hrest⟩ := pairwise_cons.1 h
      obtain ⟨hlt', hrest'⟩ := pairwise_cons.1 h'
      rw [lookup_entry_cons, if_pos rfl] at hhead
      cases hhead with
      | some hvalue =>
        refine .cons ⟨rfl, hvalue⟩ (ih hrest hrest' fun key => ?_)
        by_cases hkey : key = k
        · rw [hkey, lookup_eq_none_of_lt hlt, lookup_eq_none_of_lt hlt']
          exact .none
        · have hkept := hfound key
          rwa [lookup_entry_cons, lookup_entry_cons, if_neg hkey, if_neg hkey] at hkept

theorem lookup_filter_ne (left key : String) (entries : List (String × α)) :
    (entries.filter (·.1 ≠ left)).lookup key = if key = left then none
      else entries.lookup key := by
  induction entries with
  | nil => simp
  | cons head rest ih =>
    obtain ⟨k, v⟩ := head
    by_cases hk : k = left
    · rw [filter_cons_of_neg (by simpa using hk), ih, lookup_entry_cons, hk]
      split <;> rfl
    · rw [filter_cons_of_pos (by simpa using hk), lookup_entry_cons, ih,
        lookup_entry_cons]
      by_cases hkey : key = k
      · simp [hkey, hk]
      · simp [hkey]

namespace Keyed

/-- The keys of a map, in order. -/
def keys (m : Keyed α) : List String :=
  m.entries.map Prod.fst

theorem mem_keys_iff {m : Keyed α} {key : String} :
    key ∈ m.keys ↔ (m.find? key).isSome = true := by
  rw [keys, find?, mem_map, lookup_isSome_iff]
  constructor
  · rintro ⟨e, he, rfl⟩
    exact ⟨e, he, by simp⟩
  · rintro ⟨e, he, hkey⟩
    exact ⟨e, he, (by simpa using hkey : key = e.1).symm⟩

/-- Maps that differ at one key at most have the same other entries. -/
theorem filter_entries_eq {m m' : Keyed α} {left : String}
    (h : ∀ key, key ≠ left → m.find? key = m'.find? key) :
    m.entries.filter (·.1 ≠ left) = m'.entries.filter (·.1 ≠ left) := by
  have hsame :=
    forall₂_of_lookup (R := fun _ a b => a = b) (m.increasing.filter (·.1 ≠ left))
    (m'.increasing.filter (·.1 ≠ left)) fun key => ?_
  · rw [← forall₂_eq_eq_eq]
    exact hsame.imp fun e e' he => Prod.ext he.1 he.2
  · rw [lookup_filter_ne, lookup_filter_ne]
    split
    · exact .none
    · rename_i hkey
      rw [← find?, ← find?, h key hkey]
      cases m'.find? key with
      | none => exact .none
      | some value => exact .some rfl

end Keyed

end TypedContent
