/-!
# What the elements of a list give

`Gives x b` says that the element `x` gives `b`; elements may give nothing.
`FirstGives` is about the first of a list that gives something, and
`AllGive` about all that do, in order. They say what `findSome?` and
`filterMap` compute without the function that is searched with.
-/

namespace TypedContent

open List

variable {α β γ : Type} {Gives : α → β → Prop} {f : α → Option β} {xs : List α} {b : β}

/-- Some element gives `b`, and no element before it gives anything. -/
def FirstGives (Gives : α → β → Prop) (xs : List α) (b : β) : Prop :=
  ∃ before x after, xs = before ++ x :: after ∧ Gives x b
    ∧ ∀ x' ∈ before, ∀ b', ¬ Gives x' b'

/-- The elements give these, in order; elements that give nothing are passed
over. -/
inductive AllGive (Gives : α → β → Prop) : List α → List β → Prop where
  | nil : AllGive Gives [] []
  | kept {x b xs bs} : Gives x b → AllGive Gives xs bs → AllGive Gives (x :: xs) (b :: bs)
  | passed {x xs bs} : (∀ b, ¬ Gives x b) → AllGive Gives xs bs →
      AllGive Gives (x :: xs) bs

theorem eq_none_iff_gives_nothing (h : ∀ x b, f x = some b ↔ Gives x b) (x : α) :
    f x = none ↔ ∀ b, ¬ Gives x b := by
  rw [Option.eq_none_iff_forall_ne_some]
  exact forall_congr' fun b => not_congr (h x b)

theorem findSome?_eq_some_iff_firstGives (h : ∀ x b, f x = some b ↔ Gives x b) :
    xs.findSome? f = some b ↔ FirstGives Gives xs b := by
  simp only [findSome?_eq_some_iff, FirstGives, h, eq_none_iff_gives_nothing h]

theorem findSome?_eq_none_iff_gives_nothing (h : ∀ x b, f x = some b ↔ Gives x b) :
    xs.findSome? f = none ↔ ∀ x ∈ xs, ∀ b, ¬ Gives x b := by
  simp only [findSome?_eq_none_iff, eq_none_iff_gives_nothing h]

theorem findSome?_filterMap (f : α → Option β) (g : β → Option γ) (xs : List α) :
    (xs.filterMap f).findSome? g = xs.findSome? fun x => (f x).bind g := by
  rw [← head?_filterMap, filterMap_filterMap, head?_filterMap]

theorem allGive_filterMap (h : ∀ x b, f x = some b ↔ Gives x b) (xs : List α) :
    AllGive Gives xs (xs.filterMap f) := by
  induction xs with
  | nil => exact .nil
  | cons x xs ih =>
    cases hx : f x with
    | some b =>
      rw [filterMap_cons_some hx]
      exact .kept ((h x b).1 hx) ih
    | none =>
      rw [filterMap_cons_none hx]
      exact .passed ((eq_none_iff_gives_nothing h x).1 hx) ih

/-- Elements that are filtered away beforehand give nothing. -/
theorem allGive_filterMap_filter {p : α → Bool} (h : ∀ x b, f x = some b ↔ Gives x b)
    (xs : List α) :
    AllGive (fun x b => p x = true ∧ Gives x b) xs ((xs.filter p).filterMap f) := by
  rw [filterMap_filter]
  refine allGive_filterMap (fun x b => ?_) xs
  rw [Option.ite_none_right_eq_some, h]

end TypedContent
