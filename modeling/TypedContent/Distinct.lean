/-!
# Distinct entries

A list in which the first entry of each key is kept and the later ones are
dropped.
-/

namespace TypedContent

variable {α κ : Type} [DecidableEq κ]

/-- The first entry of each key, in order. -/
def distinctBy (key : α → κ) : List α → List α
  | [] => []
  | x :: xs => x :: (distinctBy key xs).filter fun y => key y ≠ key x

theorem mem_of_mem_distinctBy {key : α → κ} {xs : List α} {x : α}
    (h : x ∈ distinctBy key xs) :
    x ∈ xs := by
  induction xs with
  | nil => exact h
  | cons y ys ih =>
    rcases List.mem_cons.1 h with rfl | h
    · exact List.mem_cons_self
    · exact List.mem_cons_of_mem _ (ih (List.mem_filter.1 h).1)

/-- Every key is kept. -/
theorem exists_mem_distinctBy (key : α → κ) {xs : List α} {x : α} (h : x ∈ xs) :
    ∃ y ∈ distinctBy key xs, key y = key x := by
  induction xs with
  | nil => cases h
  | cons z zs ih =>
    by_cases hz : key z = key x
    · exact ⟨z, List.mem_cons_self, hz⟩
    · obtain ⟨y, hy, hkey⟩ :=
        ih ((List.mem_cons.1 h).resolve_left fun hx => hz (hx ▸ rfl))
      refine ⟨y, List.mem_cons_of_mem _ (List.mem_filter.2 ⟨hy, ?_⟩), hkey⟩
      simpa [hkey] using Ne.symm hz

/-- No key is kept twice. -/
theorem nodup_map_distinctBy (key : α → κ) (xs : List α) :
    ((distinctBy key xs).map key).Nodup := by
  induction xs with
  | nil => exact List.nodup_nil
  | cons x xs ih =>
    rw [distinctBy, List.map_cons, List.nodup_cons]
    refine ⟨fun h => ?_, ih.sublist (List.filter_sublist.map key)⟩
    obtain ⟨y, hy, hkey⟩ := List.mem_map.1 h
    simpa [hkey] using (List.mem_filter.1 hy).2

end TypedContent
