import Mathlib.Data.List.Infix
import Mathlib.Data.List.Nodup
import Mathlib.Data.List.Pairwise
import Mathlib.Data.List.Perm.Basic
import Mathlib.Data.List.Sort
import TypedContent.Keyed

/-!
# Lists, order and keys

Lists are read entry by entry: when every entry has a reading, the list has
(`mapM_map_eq_some`), and a reading that leaves entries out can only be told
from another one by what it reads (`filterMap_eq_filterMap_iff`). The only
entry of its kind is found in any order (`find?_eq_of_perm`). What entries
with distinct keys contribute is distinct if no two of them share anything
(`nodup_flatMap_iff`). Sorting by a key forgets the order in which a list
was written as long as the keys are distinct (`sortByKey_eq_of_perm`), and a
map made from entries with distinct keys holds exactly those entries
(`Keyed.entries_ofList_perm`, `Keyed.find?_ofList`).
-/

namespace TypedContent

open List

variable {α : Type}

/-! ## Reading -/

theorem mapM_map_eq_some {β γ : Type} {f : α → β} {read : β → Option γ} {g : α → γ}
    {xs : List α} (h : ∀ x ∈ xs, read (f x) = some (g x)) :
    (xs.map f).mapM read = some (xs.map g) := by
  induction xs with
  | nil => rfl
  | cons x xs ih =>
    have hx := h x mem_cons_self
    have hxs := ih fun y hy => h y (mem_cons_of_mem _ hy)
    simp [mapM_cons, hx, hxs]

theorem mapM_eq_ok {β ε : Type} {read : α → Except ε β} {g : α → β} {xs : List α}
    (h : ∀ x ∈ xs, read x = .ok (g x)) : xs.mapM read = .ok (xs.map g) := by
  induction xs with
  | nil => rfl
  | cons x xs ih =>
    rw [forall_mem_cons] at h
    rw [mapM_cons, h.1, ih h.2]
    rfl

/-- Readings that agree entry by entry, up to a change of the entries and of
what is read. -/
theorem mapM_map_eq_map {β : Type} {m : Type → Type} [Monad m] [LawfulMonad m]
    {f : α → α} {g : β → β} {read : α → m β} {xs : List α}
    (h : ∀ x ∈ xs, read (f x) = g <$> read x) :
    (xs.map f).mapM read = List.map g <$> xs.mapM read := by
  induction xs with
  | nil => simp
  | cons x xs ih =>
    rw [forall_mem_cons] at h
    simp [mapM_cons, h.1, ih h.2]

theorem exists_of_mem_mapM {β : Type} {read : α → Option β} {xs : List α}
    {ys : List β} (h : xs.mapM read = some ys) {y : β} (hy : y ∈ ys) :
    ∃ x ∈ xs, read x = some y := by
  induction xs generalizing ys with
  | nil =>
    obtain rfl := Option.some.inj h
    cases hy
  | cons x xs ih =>
    simp only [mapM_cons, Option.bind_eq_bind, Option.bind_eq_some_iff] at h
    obtain ⟨first, hfirst, rest, hrest, hys⟩ := h
    obtain rfl := Option.some.inj hys
    rcases mem_cons.1 hy with rfl | hy
    · exact ⟨x, mem_cons_self, hfirst⟩
    · obtain ⟨x', hmem, hread⟩ := ih hrest hy
      exact ⟨x', mem_cons_of_mem x hmem, hread⟩

theorem exists_of_mem_mapM_ok {β ε : Type} {read : α → Except ε β} {xs : List α}
    {ys : List β} (h : xs.mapM read = .ok ys) {y : β} (hy : y ∈ ys) :
    ∃ x ∈ xs, read x = .ok y := by
  induction xs generalizing ys with
  | nil =>
    obtain rfl := Except.ok.inj h
    cases hy
  | cons x xs ih =>
    rw [mapM_cons] at h
    cases hfirst : read x with
    | error e => simp [hfirst, bind, Except.bind] at h
    | ok first =>
      cases hrest : xs.mapM read with
      | error e => simp [hfirst, hrest, bind, Except.bind] at h
      | ok rest =>
        rw [hfirst, hrest] at h
        obtain rfl := Except.ok.inj h
        rcases mem_cons.1 hy with rfl | hy
        · exact ⟨x, mem_cons_self, hfirst⟩
        · obtain ⟨x', hmem, hread⟩ := ih hrest hy
          exact ⟨x', mem_cons_of_mem x hmem, hread⟩

/-- A list is read exactly if each of its entries is. -/
theorem mapM_eq_ite {β : Type} (read : α → Option β) (xs : List α) :
    xs.mapM read = if ∀ x ∈ xs, (read x).isSome then some (xs.filterMap read)
      else none := by
  induction xs with
  | nil => rfl
  | cons x xs ih =>
    rw [mapM_cons, ih]
    cases hx : read x with
    | none => simp [hx]
    | some y =>
      simp only [forall_mem_cons, hx, Option.isSome_some, true_and,
        filterMap_cons_some hx]
      split <;> rfl

theorem length_filterMap_le {β : Type} {f g : α → Option β} {xs : List α}
    (h : ∀ x ∈ xs, (g x).isSome → (f x).isSome) :
    (xs.filterMap g).length ≤ (xs.filterMap f).length := by
  induction xs with
  | nil => exact Nat.le_refl 0
  | cons x xs ih =>
    rw [forall_mem_cons] at h
    have hxs := ih h.2
    cases hg : g x with
    | none =>
      rw [filterMap_cons_none hg]
      exact Nat.le_trans hxs ((sublist_cons_self x xs).filterMap f).length_le
    | some b =>
      obtain ⟨c, hf⟩ := Option.isSome_iff_exists.1 (h.1 (hg ▸ rfl))
      rw [filterMap_cons_some hg, filterMap_cons_some hf]
      exact Nat.succ_le_succ hxs

/-- Two readings of a list, one of which reads whatever the other does,
agree on the list exactly if they agree on every entry: an entry that only
one of them reads makes its result longer. -/
theorem filterMap_eq_filterMap_iff {β : Type} {f g : α → Option β} {xs : List α}
    (h : ∀ x ∈ xs, (g x).isSome → (f x).isSome) :
    xs.filterMap f = xs.filterMap g ↔ ∀ x ∈ xs, f x = g x := by
  refine ⟨fun heq => ?_, filterMap_congr⟩
  induction xs with
  | nil => exact fun x hx => nomatch hx
  | cons x xs ih =>
    rw [forall_mem_cons] at h ⊢
    cases hf : f x with
    | none =>
      have hg : g x = none := by
        cases hg : g x with
        | none => rfl
        | some b => exact absurd (h.1 (hg ▸ rfl)) (by simp [hf])
      rw [filterMap_cons_none hf, filterMap_cons_none hg] at heq
      exact ⟨hg.symm, ih h.2 heq⟩
    | some c =>
      rw [filterMap_cons_some hf] at heq
      cases hg : g x with
      | none =>
        rw [filterMap_cons_none hg] at heq
        have hlength := length_filterMap_le h.2
        rw [← heq, length_cons] at hlength
        omega
      | some b =>
        rw [filterMap_cons_some hg] at heq
        obtain ⟨hhead, htail⟩ := List.cons.inj heq
        exact ⟨by rw [hhead], ih h.2 htail⟩

/-! ## Neighbours -/

/-- A pair stands in a list put together from two parts if it stands in one
of them or where they meet. -/
theorem infix_pair_append {a b : α} {xs ys : List α} :
    [a, b] <:+: xs ++ ys ↔ [a, b] <:+: xs ∨ [a, b] <:+: ys
      ∨ (xs.getLast? = some a ∧ ys.head? = some b) := by
  induction xs with
  | nil => simp
  | cons x xs ih =>
    rw [cons_append, infix_cons_iff, infix_cons_iff, ih]
    cases xs with
    | nil =>
      cases ys with
      | nil => simp [cons_prefix_cons]
      | cons y ys =>
        simp only [nil_append, cons_prefix_cons, nil_prefix, and_true, prefix_nil,
          reduceCtorEq, and_false, infix_nil, getLast?_nil, getLast?_singleton,
          head?_cons, Option.some.injEq, false_and, false_or, or_false]
        rw [or_comm, eq_comm (a := a), eq_comm (a := b)]
    | cons x' xs =>
      have hbegins : [a, b] <+: x :: (x' :: xs ++ ys) ↔ [a, b] <+: x :: x' :: xs := by
        simp [cons_prefix_cons]
      rw [hbegins, getLast?_cons_cons, or_assoc]

/-! ## Order -/

/-- The only entry of its kind is found wherever it stands. -/
theorem find?_eq_of_perm {p : α → Bool} {xs ys : List α} (hperm : xs.Perm ys)
    (hone : xs.countP p ≤ 1) :
    ys.find? p = xs.find? p := by
  have hfilter : (xs.filter p).Perm (ys.filter p) := hperm.filter p
  rw [countP_eq_length_filter] at hone
  rw [← head?_filter, ← head?_filter]
  match hxs : xs.filter p with
  | [] =>
    rw [hxs] at hfilter
    rw [hfilter.nil_eq]
  | [x] =>
    rw [hxs] at hfilter
    rw [perm_singleton.1 hfilter.symm]
  | x :: y :: rest =>
    rw [hxs, length_cons, length_cons] at hone
    omega

/-! ## Distinct keys -/

theorem filter_of_mem {key : α → String} {xs : List α} (hnodup : (xs.map key).Nodup)
    {x : α} (hx : x ∈ xs) :
    xs.filter (key · == key x) = [x] := by
  induction xs with
  | nil => cases hx
  | cons y ys ih =>
    rw [map_cons, nodup_cons] at hnodup
    rcases mem_cons.1 hx with rfl | hx
    · rw [filter_cons_of_pos (by simp), cons_eq_cons]
      refine ⟨rfl, filter_eq_nil_iff.2 fun y hy hname => hnodup.1 ?_⟩
      exact mem_map.2 ⟨y, hy, beq_iff_eq.1 hname⟩
    · have hne : key y ≠ key x := fun heq => hnodup.1 (heq ▸ mem_map_of_mem hx)
      rw [filter_cons_of_neg (by simpa using hne), ih hnodup.2 hx]

theorem find?_of_mem {key : α → String} {xs : List α} (hnodup : (xs.map key).Nodup)
    {x : α} (hx : x ∈ xs) :
    xs.find? (key · == key x) = some x := by
  rw [← head?_filter, filter_of_mem hnodup hx, head?_singleton]

/-- What is made of some entries, under their keys, keeps the order of the
keys. -/
theorem sublist_map_filterMap {β κ : Type} {key : α → κ} {name : β → κ} {f : α → Option β}
    (h : ∀ a b, f a = some b → name b = key a) (xs : List α) :
    ((xs.filterMap f).map name).Sublist (xs.map key) := by
  induction xs with
  | nil => exact .slnil
  | cons x xs ih =>
    cases hx : f x with
    | none =>
      rw [filterMap_cons_none hx, map_cons]
      exact ih.cons _
    | some b =>
      rw [filterMap_cons_some hx, map_cons, map_cons, h x b hx]
      exact ih.cons_cons _

/-- Entries with distinct keys contribute distinct elements exactly if no
two of them share one. -/
theorem nodup_flatMap_iff {β κ : Type} {key : α → κ} {f : α → List β} {xs : List α}
    (hkey : (xs.map key).Nodup) (hf : ∀ x ∈ xs, (f x).Nodup) :
    (xs.flatMap f).Nodup ↔ ∀ x ∈ xs, ∀ y ∈ xs, ∀ b,
      b ∈ f x → b ∈ f y → key x = key y := by
  rw [nodup_flatMap]
  constructor
  · rintro ⟨-, hdisjoint⟩ x hx y hy b hbx hby
    by_contra hne
    have hsymm : Std.Symm (Function.onFun List.Disjoint f) :=
      ⟨fun _ _ h _ hb hb' => h hb' hb⟩
    exact hdisjoint.forall hx hy (fun heq => hne (congrArg key heq)) hbx hby
  · intro h
    refine ⟨hf, (pairwise_map.1 hkey).imp_of_mem fun {x y} hx hy hne b hbx hby => ?_⟩
    exact hne (h x hx y hy b hbx hby)

/-! ## Sorting -/

theorem decide_key_trans (key : α → String) (a b c : α)
    (hab : decide (key a ≤ key b) = true) (hbc : decide (key b ≤ key c) = true) :
    decide (key a ≤ key c) = true :=
  decide_eq_true (String.le_trans (of_decide_eq_true hab) (of_decide_eq_true hbc))

theorem decide_key_total (key : α → String) (a b : α) :
    (decide (key a ≤ key b) || decide (key b ≤ key a)) = true := by
  simpa using String.le_total (key a) (key b)

theorem pairwise_sortByKey (key : α → String) (xs : List α) :
    (sortByKey key xs).Pairwise fun a b => key a ≤ key b :=
  (pairwise_mergeSort (decide_key_trans key) (decide_key_total key) xs).imp
    of_decide_eq_true

/-- Sorting by insertion gives the same, and it can be computed with. -/
theorem sortByKey_eq_insertionSort (key : α → String) (xs : List α) :
    sortByKey key xs = xs.insertionSort fun a b => key a ≤ key b := by
  induction xs with
  | nil => simp [sortByKey]
  | cons x xs ih =>
    obtain ⟨before, after, hcons, hxs, hbefore⟩ :=
      mergeSort_cons (decide_key_trans key) (decide_key_total key) x xs
    have hsorted := pairwise_sortByKey key (x :: xs)
    rw [sortByKey, hcons] at hsorted ⊢
    have hfront : ∀ b ∈ before, (decide ¬ key x ≤ key b) = true := by simpa using hbefore
    have hback : ∀ b ∈ after, key x ≤ key b := fun _ =>
      rel_of_pairwise_cons (pairwise_append.1 hsorted).2.1
    rw [insertionSort_cons, ← ih, sortByKey, hxs, orderedInsert_eq_take_drop,
      takeWhile_append_of_pos hfront, dropWhile_append_of_pos hfront]
    cases after with
    | nil => simp
    | cons b after =>
      have hstop : (decide ¬ key x ≤ key b) = false :=
        decide_eq_false (not_not.2 (hback b mem_cons_self))
      rw [takeWhile_cons, dropWhile_cons, hstop, if_neg Bool.false_ne_true,
        if_neg Bool.false_ne_true, append_nil]

/-- Distinct keys are in strictly increasing order once they are sorted. -/
theorem pairwise_lt_sortByKey {key : α → String} {xs : List α}
    (hnodup : (xs.map key).Nodup) :
    ((sortByKey key xs).map key).Pairwise (· < ·) := by
  have hdistinct : ((sortByKey key xs).map key).Nodup :=
    ((sortByKey_perm key xs).map key).nodup_iff.2 hnodup
  have hordered : ((sortByKey key xs).map key).Pairwise (· ≤ ·) :=
    pairwise_map.2 (pairwise_sortByKey key xs)
  refine hordered.imp₂ (fun a b hle hne => ?_) hdistinct
  exact lt_of_not_lt_of_ne (String.not_lt.2 hle) (Ne.symm hne)

/-- Two sorted lists with the same members are the same list, since no two
members share a key. -/
theorem sortByKey_eq_of_perm {key : α → String} {xs ys : List α} (hperm : xs.Perm ys)
    (hnodup : (xs.map key).Nodup) : sortByKey key xs = sortByKey key ys := by
  have hsorted : (sortByKey key xs).Perm (sortByKey key ys) :=
    (sortByKey_perm key xs).trans (hperm.trans (sortByKey_perm key ys).symm)
  have hmem : ∀ a, a ∈ sortByKey key xs → a ∈ xs :=
    fun a => (sortByKey_perm key xs).mem_iff.1
  refine List.Perm.eq_of_pairwise (fun a b ha hb hab hba => ?_)
    (pairwise_sortByKey key xs)
    (pairwise_sortByKey key ys) hsorted
  have hb' : b ∈ xs := hperm.mem_iff.2 ((sortByKey_perm key ys).mem_iff.1 hb)
  exact inj_on_of_nodup_map hnodup (hmem a ha) hb' (String.le_antisymm hab hba)

theorem sortByKey_of_sorted {key : α → String} {xs : List α}
    (h : xs.Pairwise fun a b => key a ≤ key b) :
    sortByKey key xs = xs :=
  mergeSort_of_pairwise (h.imp fun hab => decide_eq_true hab)

theorem sortByKey_sortByKey (key : α → String) (xs : List α) :
    sortByKey key (sortByKey key xs) = sortByKey key xs :=
  sortByKey_of_sorted (pairwise_sortByKey key xs)

/-- Sorting commutes with a map that keeps the keys. -/
theorem sortByKey_map {β : Type} {key : α → String} {key' : β → String} {f : α → β}
    (h : ∀ a, key' (f a) = key a) (xs : List α) :
    sortByKey key' (xs.map f) = (sortByKey key xs).map f := by
  refine (map_mergeSort fun a _ b _ => ?_).symm
  simp only [h]

/-! ## Maps -/

namespace Keyed

theorem insertEntry_perm {key : String} {value : α} {entries : List (String × α)}
    (h : key ∉ entries.map Prod.fst) :
    (insertEntry key value entries).Perm ((key, value) :: entries) := by
  induction entries with
  | nil => exact .refl _
  | cons head rest ih =>
    obtain ⟨k, v⟩ := head
    rw [map_cons, mem_cons, not_or] at h
    rw [insertEntry, if_neg h.1]
    split
    · exact .refl _
    · exact ((ih h.2).cons (k, v)).trans (.swap _ _ _)

/-- Adding entries with new keys one after the other keeps them all. -/
theorem foldl_insert_perm {kvs : List (String × α)} {m : Keyed α}
    (h : ((m.entries ++ kvs).map Prod.fst).Nodup) :
    (kvs.foldl (fun m (k, v) => m.insert k v) m).entries.Perm (m.entries ++ kvs) := by
  induction kvs generalizing m with
  | nil => simp
  | cons kv kvs ih =>
    obtain ⟨k, v⟩ := kv
    have hnew : k ∉ m.entries.map Prod.fst := by
      rw [map_append, map_cons, nodup_append] at h
      exact fun hmem => h.2.2 k hmem k mem_cons_self rfl
    have hinsert : (m.insert k v).entries.Perm ((k, v) :: m.entries) :=
      insertEntry_perm hnew
    have hmiddle : ((m.insert k v).entries ++ kvs).Perm (m.entries ++ (k, v) :: kvs) :=
      (hinsert.append_right kvs).trans perm_middle.symm
    have hnodup : (((m.insert k v).entries ++ kvs).map Prod.fst).Nodup :=
      (hmiddle.map Prod.fst).nodup_iff.2 h
    exact (ih hnodup).trans hmiddle

theorem entries_ofList_perm {kvs : List (String × α)} (h : (kvs.map Prod.fst).Nodup) :
    (ofList kvs).entries.Perm kvs :=
  foldl_insert_perm (m := empty) h

theorem lookup_of_mem {entries : List (String × α)}
    (hnodup : (entries.map Prod.fst).Nodup) {key : String} {value : α}
    (h : (key, value) ∈ entries) :
    entries.lookup key = some value := by
  induction entries with
  | nil => cases h
  | cons head rest ih =>
    obtain ⟨k, v⟩ := head
    rw [map_cons, nodup_cons] at hnodup
    rw [lookup_entry_cons]
    rcases mem_cons.1 h with heq | hrest
    · obtain ⟨rfl, rfl⟩ := Prod.mk.inj heq
      rw [if_pos rfl]
    · have hne : key ≠ k := by
        rintro rfl
        exact hnodup.1 (mem_map.2 ⟨(key, value), hrest, rfl⟩)
      rw [if_neg hne, ih hnodup.2 hrest]

theorem find?_ofList {kvs : List (String × α)} (hnodup : (kvs.map Prod.fst).Nodup)
    {key : String} {value : α} (h : (key, value) ∈ kvs) :
    (ofList kvs).find? key = some value := by
  have hperm := entries_ofList_perm hnodup
  exact lookup_of_mem ((hperm.map Prod.fst).nodup_iff.2 hnodup) (hperm.mem_iff.2 h)

end Keyed

end TypedContent
