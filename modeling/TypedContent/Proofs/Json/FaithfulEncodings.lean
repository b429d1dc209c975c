import TypedContent.Json.Value
import TypedContent.Proofs.Lists

/-!
# Faithful encodings

The canonical form of a value forgets the order of fields and nothing else.
An encoding of some type as values is `Faithful` if the canonical form still
tells what was encoded. Strings, flags and optional strings are encoded
faithfully, and so are lists and maps of what is encoded faithfully. A
record is, if each of its fields is, because objects with the same canonical
form and the same distinct names have fields with the same canonical forms
(`canonical_fields_eq`).
-/

namespace TypedContent

open List

namespace Json

namespace Value

theorem canonicalItems_eq (items : List Value) :
    canonicalItems items = items.map canonical := by
  induction items with
  | nil => rfl
  | cons item items ih => rw [canonicalItems, ih, map_cons]

theorem canonicalFields_eq (fields : List (String × Value)) :
    canonicalFields fields = fields.map fun f => (f.1, f.2.canonical) := by
  induction fields with
  | nil => rfl
  | cons field fields ih => rw [canonicalFields, ih, map_cons]

theorem map_fst_canonicalFields (fields : List (String × Value)) :
    (canonicalFields fields).map Prod.fst = fields.map Prod.fst := by
  rw [canonicalFields_eq, map_map]
  rfl

/-! ## Fields of objects -/

section Fields

variable {fs gs : List (String × Value)}
  (h : (object fs).canonical = (object gs).canonical)

include h

theorem canonicalFields_perm : (canonicalFields fs).Perm (canonicalFields gs) := by
  rw [canonical, canonical, object.injEq] at h
  exact (sortByKey_perm Prod.fst _).symm.trans (h ▸ sortByKey_perm Prod.fst _)

/-- Fields of the same name have the same canonical form, as long as a name
stands for one field. -/
theorem canonical_field_eq (hnodup : (gs.map Prod.fst).Nodup) (name : String)
    {v w : Value} (hv : (name, v) ∈ fs) (hw : (name, w) ∈ gs) :
    v.canonical = w.canonical := by
  have hmem : ∀ {us : List (String × Value)} {u : Value}, (name, u) ∈ us →
      (name, u.canonical) ∈ canonicalFields us := by
    intro us u hu
    rw [canonicalFields_eq]
    exact mem_map_of_mem (f := fun f => (f.1, f.2.canonical)) hu
  rw [← map_fst_canonicalFields] at hnodup
  have hfound := Keyed.lookup_of_mem hnodup ((canonicalFields_perm h).mem_iff.1 (hmem hv))
  rw [Keyed.lookup_of_mem hnodup (hmem hw)] at hfound
  exact (Option.some.inj hfound).symm

/-- Records with the same distinct names. -/
theorem canonical_fields_eq (hnames : fs.map Prod.fst = gs.map Prod.fst)
    (hnodup : (fs.map Prod.fst).Nodup) :
    fs.map (fun f => f.2.canonical) = gs.map (fun f => f.2.canonical) := by
  have hlength : fs.length = gs.length := by simpa using congrArg List.length hnames
  refine ext_getElem (by simpa using hlength) fun i hi hi' => ?_
  rw [length_map] at hi hi'
  have hname : fs[i].1 = gs[i].1 := by
    have := getElem_of_eq hnames (i := i) (by simpa using hi)
    rwa [getElem_map, getElem_map] at this
  rw [getElem_map, getElem_map]
  refine canonical_field_eq h (hnames ▸ hnodup) fs[i].1 (getElem_mem hi) ?_
  rw [hname]
  exact getElem_mem hi'

end Fields

/-! ## Encodings -/

variable {α β : Type}

/-- The canonical form of what is encoded tells what was encoded. -/
def Faithful (f : α → Value) : Prop :=
  ∀ ⦃a b : α⦄, (f a).canonical = (f b).canonical → a = b

theorem faithful_string : Faithful string := by
  intro s t h
  simpa [canonical] using h

theorem faithful_bool : Faithful bool := by
  intro a b h
  simpa [canonical] using h

theorem faithful_optional : Faithful optional := by
  intro s t h
  cases s <;> cases t <;> simp_all [optional, canonical]

theorem Faithful.comp {f : β → Value} (hf : Faithful f) {g : α → β}
    (hg : Function.Injective g) :
    Faithful fun a => f (g a) :=
  fun _ _ h => hg (hf h)

theorem Faithful.list {f : α → Value} (hf : Faithful f) :
    Faithful fun items : List α => array (items.map f) := by
  intro xs ys h
  simp only [canonical, canonicalItems_eq, array.injEq, map_map] at h
  have hinjective : Function.Injective (canonical ∘ f) := fun _ _ h => hf h
  exact map_injective_iff.2 hinjective h

/-- A map has one order of its entries, which is the canonical one. -/
theorem Faithful.map {f : α → Value} (hf : Faithful f) :
    Faithful fun m : Keyed α => object (m.entries.map fun (k, v) => (k, f v)) := by
  intro m n h
  have hsorted : ∀ k : Keyed α, sortByKey Prod.fst
      (canonicalFields (k.entries.map fun (k, v) => (k, f v)))
      = k.entries.map fun (k, v) => (k, (f v).canonical) := by
    intro k
    rw [canonicalFields_eq, map_map]
    refine sortByKey_of_sorted (pairwise_map.2 (k.increasing.imp fun hlt => ?_))
    exact String.not_lt.1 (String.lt_asymm hlt)
  rw [canonical, canonical, hsorted, hsorted, object.injEq] at h
  have hinjective :
      Function.Injective fun (e : String × α) => (e.1, (f e.2).canonical) := by
    rintro ⟨k, v⟩ ⟨l, w⟩ heq
    obtain ⟨hkey, hvalue⟩ := Prod.mk.inj heq
    rw [Prod.mk.injEq]
    exact ⟨hkey, hf hvalue⟩
  have hentries : m.entries = n.entries := map_injective_iff.2 hinjective h
  cases m
  cases n
  simpa using hentries

end Value

end Json

end TypedContent
