import TypedContent.Proofs.Source.SingleSpacing

/-!
# Squashed texts

Squashing a text keeps its runs, the stretches between its gaps, and puts a
space between neighbours. That is the single-spaced form of the text without
the space at its beginning and at its end (`exists_condense_eq`). Single
spacing does not change what a character is part of, and neither does the
loss of a space of the code, so the squashed text is marked as the runs were
(`marks_squash`). Hence it has the same runs, and squashing it again changes
nothing (`squash_squash`).
-/

namespace TypedContent

open List

namespace Source

/-! ## Stretches of a list -/

section Stretches

variable {α : Type} {p : α → Bool} {space : α} {x : α} {xs : List α}

/-- The non-empty stretches between the elements that satisfy `p`. -/
def stretches (p : α → Bool) (xs : List α) : List (List α) :=
  (xs.splitOnP p).filter (· ≠ [])

theorem stretches_nil : stretches p [] = [] := by
  simp [stretches, splitOnP_nil]

theorem stretches_cons_gap (hx : p x = true) (xs : List α) :
    stretches p (x :: xs) = stretches p xs := by
  simp [stretches, splitOnP_cons_eq_if_modifyHead, hx]

/-- An element in front of a gap, or of nothing, is a stretch of its own. -/
theorem stretches_cons_last (hx : p x = false) (hxs : xs.head?.all p = true) :
    stretches p (x :: xs) = [x] :: stretches p xs := by
  cases xs with
  | nil => simp [stretches, splitOnP_cons_eq_if_modifyHead, splitOnP_nil, hx]
  | cons y ys =>
    have hy : p y = true := hxs
    simp [stretches, splitOnP_cons_eq_if_modifyHead, hx, hy]

/-- An element in front of another one that is no gap belongs to the same
stretch. -/
theorem exists_stretches_cons (hx : p x = false) {y : α} (hy : p y = false)
    (ys : List α) :
    ∃ stretch rest, stretches p (y :: ys) = stretch :: rest
      ∧ stretches p (x :: y :: ys) = (x :: stretch) :: rest := by
  obtain ⟨first, others, hsplit⟩ := exists_cons_of_ne_nil (splitOnP_ne_nil p ys)
  refine ⟨y :: first, others.filter (· ≠ []), ?_, ?_⟩
  · simp [stretches, splitOnP_cons_eq_if_modifyHead, hy, hsplit]
  · simp [stretches, splitOnP_cons_eq_if_modifyHead, hx, hy, hsplit]

theorem mem_splitOnP_eq_false {stretch : List α} (h : stretch ∈ xs.splitOnP p) :
    ∀ x ∈ stretch, p x = false := by
  induction xs generalizing stretch with
  | nil =>
    rw [splitOnP_nil, mem_singleton] at h
    simp [h]
  | cons y ys ih =>
    rw [splitOnP_cons_eq_if_modifyHead] at h
    obtain ⟨first, others, hsplit⟩ := exists_cons_of_ne_nil (splitOnP_ne_nil p ys)
    rw [hsplit] at h ih
    split at h
    · rcases mem_cons.1 h with rfl | h
      · exact fun x hx => nomatch hx
      · exact ih h
    · rename_i hy
      rcases mem_cons.1 h with rfl | h
      · exact forall_mem_cons.2 ⟨by simpa using hy, ih mem_cons_self⟩
      · exact ih (mem_cons_of_mem _ h)

theorem mem_stretches {stretch : List α} (h : stretch ∈ stretches p xs) :
    stretch ≠ [] ∧ ∀ x ∈ stretch, p x = false := by
  obtain ⟨hmem, hne⟩ := mem_filter.1 h
  exact ⟨by simpa using hne, mem_splitOnP_eq_false hmem⟩

/-- Stretches with a gap between neighbours are the stretches of what they
make up. -/
theorem stretches_intercalate (hspace : p space = true) {parts : List (List α)}
    (h : ∀ part ∈ parts, part ≠ [] ∧ ∀ x ∈ part, p x = false) :
    stretches p ([space].intercalate parts) = parts := by
  induction parts with
  | nil => rw [intercalate_nil, stretches_nil]
  | cons part parts ih =>
    obtain ⟨⟨hne, hpart⟩, hparts⟩ := forall_mem_cons.1 h
    cases parts with
    | nil => simp [stretches, intercalate_singleton, splitOnP_eq_singleton hpart, hne]
    | cons next parts =>
      have hrest := ih hparts
      rw [stretches] at hrest ⊢
      rw [intercalate_cons_cons, append_assoc, singleton_append,
        splitOnP_append_cons_of_forall_mem hpart space hspace,
        filter_cons_of_pos (by simpa using hne), hrest]

/-- A condensed list is its stretches with `space` between neighbours, and
once more at an end that has a gap. -/
theorem exists_condense_eq (p : α → Bool) (space : α) (xs : List α) :
    ∃ back, (back = [] ∨ back = [space] ∧ stretches p xs ≠ [])
      ∧ condense p space xs
        = (if xs.head?.any p then [space] else [])
          ++ ([space].intercalate (stretches p xs) ++ back) := by
  induction xs with
  | nil => exact ⟨[], .inl rfl, by simp [condense, stretches_nil, intercalate_nil]⟩
  | cons x xs ih =>
    obtain ⟨back, hback, hxs⟩ := ih
    cases hx : p x with
    | true =>
      refine ⟨back, by rwa [stretches_cons_gap hx], ?_⟩
      rw [condense, if_pos hx, stretches_cons_gap hx, hxs]
      cases hhead : xs.head?.any p <;> simp [hx]
    | false =>
      rw [condense_cons hx, hxs, head?_cons, Option.any_some, hx]
      cases hhead : xs.head?.all p with
      | true =>
        rw [stretches_cons_last hx hhead]
        by_cases hnone : stretches p xs = []
        · -- nothing but gaps follows, so the space in front of them is now the one
          -- at the end
          obtain rfl : back = [] := hback.resolve_right fun h => h.2 hnone
          refine ⟨if xs.head?.any p then [space] else [], ?_, ?_⟩
          · cases xs.head?.any p <;> simp
          · simp [hnone, intercalate_nil, intercalate_singleton]
        · have hgap : xs.head?.any p = true := by
            cases xs with
            | nil => exact absurd stretches_nil hnone
            | cons y ys => exact hhead
          refine ⟨back, by simpa using hback.imp_right And.left, ?_⟩
          simp [hgap, intercalate_cons_of_ne_nil hnone]
      | false =>
        obtain ⟨y, ys, rfl⟩ : ∃ y ys, xs = y :: ys :=
          exists_cons_of_ne_nil (by rintro rfl; cases hhead)
        have hy : p y = false := hhead
        obtain ⟨stretch, rest, hstretches, hcons⟩ := exists_stretches_cons hx hy ys
        rw [hstretches] at hback ⊢
        rw [hcons]
        refine ⟨back, by simpa using hback.imp_right And.left, ?_⟩
        simp [hy, intercalate_cons_cons_left]

end Stretches

/-! ## Squashed text -/

theorem unmark_intercalate (parts : List (List Marked)) :
    unmark ([⟨.code, ' '⟩].intercalate parts) = [' '].intercalate (parts.map unmark) := by
  induction parts with
  | nil => rfl
  | cons part parts ih =>
    cases parts with
    | nil => simp [intercalate_singleton]
    | cons next parts =>
      rw [intercalate_cons_cons, unmark_append, unmark_append, ih]
      simp [intercalate_cons_cons, unmark]

theorem unmark_runs (cs : List Char) :
    unmark ([⟨.code, ' '⟩].intercalate (runs cs)) = squash cs :=
  unmark_intercalate (runs cs)

/-- Squashing does not change what the remaining characters are part of. -/
theorem marks_squash (cs : List Char) :
    marks (squash cs) = [⟨.code, ' '⟩].intercalate (runs cs) := by
  obtain ⟨back, hback, hspaced⟩ := exists_condense_eq Marked.isGap ⟨.code, ' '⟩ (marks cs)
  have hlexed : Lexed (spaced (marks cs)) := by
    rw [← marks_singleSpaced]
    exact lexed_marks _
  rw [spaced, hspaced] at hlexed
  have hfront : Lexed ([⟨.code, ' '⟩].intercalate (runs cs) ++ back) := by
    split at hlexed
    · exact (@Lexed.split ' ' [] _ (by decide) hlexed).2
    · exact hlexed
  have hruns : Lexed ([⟨.code, ' '⟩].intercalate (runs cs)) := by
    rcases hback with rfl | ⟨rfl, -⟩
    · rwa [append_nil] at hfront
    · exact (Lexed.split (by decide) hfront).1
  rw [← unmark_runs]
  exact hruns

theorem runs_squash (cs : List Char) : runs (squash cs) = runs cs := by
  have hgap : Marked.isGap ⟨.code, ' '⟩ = true := rfl
  calc runs (squash cs) = stretches Marked.isGap
        ([⟨.code, ' '⟩].intercalate (runs cs)) := by rw [← marks_squash]; rfl
    _ = runs cs := stretches_intercalate hgap fun _ => mem_stretches

/-- Squashing a squashed text changes nothing. -/
theorem squash_squash (cs : List Char) : squash (squash cs) = squash cs := by
  rw [squash, runs_squash, ← squash]

theorem squashed_squashed (s : String) : squashed (squashed s) = squashed s := by
  rw [squashed, squashed, String.toList_ofList, squash_squash]

end Source

end TypedContent
