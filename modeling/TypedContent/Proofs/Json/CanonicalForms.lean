import TypedContent.Proofs.Json.FaithfulEncodings

/-!
# The order of fields

Two values mean the same if they differ in the order of fields only, in
objects at any depth. `Reordered` says so: it lets the fields of an object
change places and lets this happen anywhere inside a value, and nothing
else. Every value is a reordering of its canonical form
(`reordered_canonical`), in which the names of each object increase
(`increasing_canonical`). Sorting forgets where a field stood, as long as no
two fields of an object have the same name, so reorderings of a value have
one canonical form (`Reordered.canonical_eq`).
-/

namespace TypedContent

open List

namespace Json

namespace Value

/-- Induction on a value: an array has a property if its items have, an
object if the values of its fields have. -/
theorem nestedInduction {motive : Value → Prop} (null : motive null)
    (bool : ∀ b, motive (bool b)) (number : ∀ n, motive (number n))
    (string : ∀ s, motive (string s))
    (array : ∀ items, (∀ v ∈ items, motive v) → motive (array items))
    (object : ∀ fields, (∀ f ∈ fields, motive f.2) → motive (object fields))
    (v : Value) :
    motive v :=
  @Value.rec motive (fun items => ∀ v ∈ items, motive v)
    (fun fields => ∀ f ∈ fields, motive f.2)
    (fun field => motive field.2) null bool number string array object
      (fun _ hv => nomatch hv)
    (fun _ _ hitem hitems => forall_mem_cons.2 ⟨hitem, hitems⟩) (fun _ hf => nomatch hf)
    (fun _ _ hfield hfields => forall_mem_cons.2 ⟨hfield, hfields⟩)
    (fun _ _ hvalue => hvalue) v

/-! ## Reorderings -/

/-- The values differ in the order of fields only, in objects at any
depth. -/
inductive Reordered : Value → Value → Prop where
  /-- The fields of an object change places. -/
  | fields {fs gs : List (String × Value)} (h : fs.Perm gs) :
      Reordered (object fs) (object gs)
  /-- Fields change places inside an item of an array. -/
  | item {v w : Value} (before after : List Value) (h : Reordered v w) :
      Reordered (array (before ++ v :: after)) (array (before ++ w :: after))
  /-- Fields change places inside the value of a field. -/
  | field {v w : Value} (before after : List (String × Value)) (name : String)
      (h : Reordered v w) :
      Reordered (object (before ++ (name, v) :: after))
        (object (before ++ (name, w) :: after))
  | refl (v : Value) : Reordered v v
  | trans {u v w : Value} (huv : Reordered u v) (hvw : Reordered v w) : Reordered u w

namespace Reordered

theorem symm {v w : Value} (h : Reordered v w) : Reordered w v := by
  induction h with
  | fields h => exact .fields h.symm
  | item before after _ ih => exact .item before after ih
  | field before after name _ ih => exact .field before after name ih
  | refl v => exact .refl v
  | trans _ _ ihuv ihvw => exact .trans ihvw ihuv

/-- What relates lists that differ in one element relates a list to its
image, element after element. -/
theorem map_of_replace {α : Type} {R : List α → List α → Prop} (refl : ∀ xs, R xs xs)
    (trans : ∀ xs ys zs, R xs ys → R ys zs → R xs zs) {f : α → α} {xs : List α}
    (h : ∀ x ∈ xs, ∀ before after, R (before ++ x :: after) (before ++ f x :: after)) :
    R xs (xs.map f) := by
  have hfrom : ∀ done, R (done ++ xs) (done ++ xs.map f) := by
    induction xs with
    | nil => exact fun done => refl _
    | cons x xs ih =>
      intro done
      rw [forall_mem_cons] at h
      have hrest := ih h.2 (done ++ [f x])
      rw [append_assoc, append_assoc] at hrest
      exact trans _ _ _ (h.1 done xs) hrest
  exact hfrom []

theorem array_map {f : Value → Value} {items : List Value}
    (h : ∀ v ∈ items, Reordered v (f v)) :
    Reordered (array items) (array (items.map f)) :=
  map_of_replace (R := fun xs ys => Reordered (array xs) (array ys)) (fun _ => .refl _)
    (fun _ _ _ => .trans)
    fun v hv before after => .item before after (h v hv)

theorem object_map {f : Value → Value} {fields : List (String × Value)}
    (h : ∀ e ∈ fields, Reordered e.2 (f e.2)) :
    Reordered (object fields) (object (fields.map fun e => (e.1, f e.2))) :=
  map_of_replace (R := fun xs ys => Reordered (object xs) (object ys))
    (fun _ => .refl _) (fun _ _ _ => .trans)
    fun e he before after => .field before after e.1 (h e he)

end Reordered

/-- A canonical form has what the value has. -/
theorem reordered_canonical (v : Value) : Reordered v v.canonical := by
  induction v using nestedInduction with
  | null => exact .refl _
  | bool b => exact .refl _
  | number n => exact .refl _
  | string s => exact .refl _
  | array items ih =>
    rw [canonical, canonicalItems_eq]
    exact .array_map ih
  | object fields ih =>
    have hvalues : Reordered (object fields) (object (canonicalFields fields)) := by
      rw [canonicalFields_eq]
      exact .object_map ih
    rw [canonical]
    exact hvalues.trans (.fields (sortByKey_perm Prod.fst _).symm)

/-! ## Objects at every depth -/

/-- The fields of every object in a value, at any depth, satisfy `p`. -/
inductive EveryObject (p : List (String × Value) → Prop) : Value → Prop where
  | null : EveryObject p null
  | bool (b : Bool) : EveryObject p (bool b)
  | number (n : Number) : EveryObject p (number n)
  | string (s : String) : EveryObject p (string s)
  | array {items : List Value} (h : ∀ v ∈ items, EveryObject p v) :
      EveryObject p (array items)
  | object {fields : List (String × Value)} (hfields : p fields)
      (h : ∀ f ∈ fields, EveryObject p f.2) :
      EveryObject p (object fields)

/-- No two fields of an object have the same name. -/
def DistinctNames (fields : List (String × Value)) : Prop :=
  (fields.map Prod.fst).Nodup

instance (fields : List (String × Value)) : Decidable (DistinctNames fields) :=
  inferInstanceAs (Decidable (fields.map Prod.fst).Nodup)

namespace EveryObject

variable {p : List (String × Value) → Prop}

theorem items {items : List Value} (h : EveryObject p (.array items)) :
    ∀ v ∈ items, EveryObject p v := by
  cases h with
  | array h => exact h

theorem fields {fields : List (String × Value)} (h : EveryObject p (.object fields)) :
    p fields ∧ ∀ f ∈ fields, EveryObject p f.2 := by
  cases h with
  | object hfields h => exact ⟨hfields, h⟩

/-- A reordering keeps the names of each object. -/
theorem of_reordered {v w : Value} (h : EveryObject DistinctNames v)
    (hvw : Reordered v w) :
    EveryObject DistinctNames w := by
  induction hvw with
  | fields hperm =>
    obtain ⟨hnames, hvalues⟩ := h.fields
    exact .object ((hperm.map Prod.fst).nodup hnames) fun f hf =>
      hvalues f (hperm.mem_iff.2 hf)
  | item before after _ ih =>
    have hitems := h.items
    simp only [forall_mem_append, forall_mem_cons] at hitems
    refine .array ?_
    simp only [forall_mem_append, forall_mem_cons]
    exact ⟨hitems.1, ih hitems.2.1, hitems.2.2⟩
  | field before after name _ ih =>
    obtain ⟨hnames, hvalues⟩ := h.fields
    simp only [forall_mem_append, forall_mem_cons] at hvalues
    refine .object ?_ ?_
    · simpa [DistinctNames] using hnames
    · simp only [forall_mem_append, forall_mem_cons]
      exact ⟨hvalues.1, ih hvalues.2.1, hvalues.2.2⟩
  | refl v => exact h
  | trans _ _ ihuv ihvw => exact ihvw (ihuv h)

end EveryObject

/-! ## Canonical forms -/

/-- Reorderings of a value have its canonical form. -/
theorem Reordered.canonical_eq {v w : Value} (h : Reordered v w)
    (hv : v.EveryObject DistinctNames) :
    v.canonical = w.canonical := by
  induction h with
  | @fields fs gs hperm =>
    obtain ⟨hnames, -⟩ := hv.fields
    rw [DistinctNames, ← map_fst_canonicalFields] at hnames
    have hcanonical : (canonicalFields fs).Perm (canonicalFields gs) := by
      rw [canonicalFields_eq, canonicalFields_eq]
      exact hperm.map _
    rw [canonical, canonical, sortByKey_eq_of_perm hcanonical hnames]
  | item before after _ ih =>
    have hinside := ih (hv.items _ (mem_append_right _ mem_cons_self))
    simp only [canonical, canonicalItems_eq, map_append, map_cons, hinside]
  | field before after name _ ih =>
    have hinside := ih (hv.fields.2 _ (mem_append_right _ mem_cons_self))
    simp only [canonical, canonicalFields_eq, map_append, map_cons, hinside]
  | refl v => rfl
  | trans huv _ ihuv ihvw => rw [ihuv hv, ihvw (hv.of_reordered huv)]

theorem increasing_canonical {v : Value} (hv : v.EveryObject DistinctNames) :
    v.canonical.EveryObject Increasing := by
  induction hv with
  | null => exact .null
  | bool b => exact .bool b
  | number n => exact .number n
  | string s => exact .string s
  | array _ ih =>
    rw [canonical, canonicalItems_eq]
    exact .array (forall_mem_map.2 ih)
  | @object fields hnames _ ih =>
    rw [DistinctNames, ← map_fst_canonicalFields] at hnames
    have hvalues : ∀ f ∈ canonicalFields fields, EveryObject Increasing f.2 := by
      rw [canonicalFields_eq]
      exact forall_mem_map.2 ih
    rw [canonical]
    exact .object (pairwise_map.1 (pairwise_lt_sortByKey hnames)) fun f hf =>
      hvalues f ((sortByKey_perm Prod.fst _).mem_iff.1 hf)

/-- **The canonical form forgets the order of fields and nothing else.** Two
values have the same canonical form exactly if they differ in the order of
fields only, at whatever depth, where no two fields of an object have the
same name. The canonical form is such a reordering of the value, the names
increase in each of its objects, and it is its own canonical form. -/
theorem canonical_orders_fields {v : Value} (hv : v.EveryObject DistinctNames) :
    (∀ w, Reordered v w ↔ v.canonical = w.canonical)
      ∧ Reordered v v.canonical ∧ v.canonical.EveryObject Increasing
        ∧ v.canonical.canonical = v.canonical := by
  refine ⟨fun w => ⟨fun h => h.canonical_eq hv, fun heq => ?_⟩, reordered_canonical v,
    increasing_canonical hv,
    ((reordered_canonical v).canonical_eq hv).symm⟩
  have hw : Reordered v w.canonical := heq ▸ reordered_canonical v
  exact hw.trans (reordered_canonical w).symm

/-- An object out of order, with an object out of order in an array in
it. -/
def unorderedRecord : Value :=
  object [("tags", array [object [("y", null), ("x", bool true)], string "b"]),
    ("id", int 7)]

theorem canonical_orders_fields_record :
    unorderedRecord.EveryObject DistinctNames
      ∧ (∀ w, Reordered unorderedRecord w ↔ unorderedRecord.canonical = w.canonical)
      ∧ Reordered unorderedRecord unorderedRecord.canonical
        ∧ unorderedRecord.canonical.EveryObject Increasing
      ∧ unorderedRecord.canonical.canonical = unorderedRecord.canonical := by
  have hinner : EveryObject DistinctNames (object [("y", null), ("x", bool true)]) :=
    .object (by decide) (forall_mem_cons.2 ⟨.null, forall_mem_singleton.2 (.bool true)⟩)
  have htags : EveryObject DistinctNames
      (array [object [("y", null), ("x", bool true)], string "b"]) :=
    .array (forall_mem_cons.2 ⟨hinner, forall_mem_singleton.2 (.string "b")⟩)
  have hnames : unorderedRecord.EveryObject DistinctNames :=
    .object (by decide) (forall_mem_cons.2 ⟨htags, forall_mem_singleton.2 (.number _)⟩)
  exact ⟨hnames, canonical_orders_fields hnames⟩

end Value

end Json

end TypedContent
