import Mathlib
import TypedContent.Proofs.TypeScript.TypeReading

/-!
# Reading printed types back

Two types mean the same when they have the same normal form
(`TypeExpr.normal`): nested unions and intersections are flat there, one
with a single member is that member, and predefined types and records are
named types. A printed type is read back as a type of the same meaning
exactly if each of its nodes is printed unambiguously (`TypeExpr.readsBack`)
and no text that it quotes breaks the line (`printed_type_reads_back_iff`).

If all nodes are unambiguous, what is read has the normal form of the type,
by induction on the type (`reading_of_readsBack`). For the other direction a
type is weighed: `readonlyArrays` counts the readonly arrays in it, and
`wrappings` counts, for each of them, the brackets around it. Normal forms
keep both, reading keeps the first and never adds to the second, and it
loses from the second when the brackets of an array pass by a readonly array
(`isWeighedIn`).
-/

namespace TypedContent

namespace TypeScript

open List Option Grammar

variable {ts : List TypeExpr} {t item : TypeExpr}

/-! ## Normal forms -/

inductive Connective where
  | union
  | intersection

namespace Connective

def join : Connective → List TypeExpr → TypeExpr
  | union => .union
  | intersection => .intersection

/-- The members that a type contributes to a chain. -/
def parts : Connective → TypeExpr → List TypeExpr
  | union, .union members => members
  | intersection, .intersection members => members
  | _, t => [t]

/-- The members that a member of a chain is read as. -/
def membersRead : Connective → TypeExpr → Option (List TypeExpr)
  | union => TypeExpr.unionMembers
  | intersection => TypeExpr.intersectionMembers

@[simp] theorem parts_join (c : Connective) (ts : List TypeExpr) :
    c.parts (c.join ts) = ts := by
  cases c <;> rfl

@[simp] theorem children_join (c : Connective) (ts : List TypeExpr) :
    (c.join ts).children = ts := by
  cases c <;> rfl

theorem isArray_join (c : Connective) (ts : List TypeExpr) :
    (c.join ts).isArray = false := by
  cases c <;> rfl

theorem sizeOf_lt_join (c : Connective) {m : TypeExpr} {members : List TypeExpr}
    (h : m ∈ members) :
    sizeOf m < sizeOf (c.join members) :=
  TypeExpr.sizeOf_lt_of_mem_children (by rwa [children_join])

/-- A chain whose members are no such chains themselves. -/
def Flat (c : Connective) (t : TypeExpr) : Prop :=
  ∃ ts, (∀ x ∈ ts, c.parts x = [x]) ∧ t = chain c.join ts

theorem parts_chain {c : Connective} (h : ∀ x ∈ ts, c.parts x = [x]) :
    c.parts (chain c.join ts) = ts := by
  match ts with
  | [] => exact parts_join c []
  | [x] => exact h x mem_cons_self
  | x :: y :: ts => exact parts_join c (x :: y :: ts)

theorem Flat.chain_parts {c : Connective} (h : c.Flat t) :
    chain c.join (c.parts t) = t := by
  obtain ⟨ts, hplain, rfl⟩ := h
  rw [parts_chain hplain]

theorem Flat.parts_of_mem {c : Connective} {x : TypeExpr} (h : c.Flat t)
    (hx : x ∈ c.parts t) :
    c.parts x = [x] := by
  obtain ⟨ts, hplain, rfl⟩ := h
  rw [parts_chain hplain] at hx
  exact hplain x hx

theorem flat_of_parts {c : Connective} (h : c.parts t = [t]) : c.Flat t :=
  ⟨[t], forall_mem_singleton.2 h, rfl⟩

theorem exists_parts_of_flatMap {c : Connective} {x : TypeExpr}
    (h : ts.flatMap c.parts = [x]) :
    ∃ t ∈ ts, c.parts t = [x] := by
  induction ts with
  | nil => cases h
  | cons t ts ih =>
    rw [flatMap_cons, append_eq_singleton_iff] at h
    rcases h with ⟨-, hrest⟩ | ⟨hfirst, -⟩
    · obtain ⟨s, hs, hparts⟩ := ih hrest
      exact ⟨s, mem_cons_of_mem t hs, hparts⟩
    · exact ⟨t, mem_cons_self, hfirst⟩

/-- A chain of flat members is flat, also for the other connective: it is
either a chain of this one or the only member that is left. -/
theorem flat_chain {c d : Connective} (h : ∀ t ∈ ts, ∀ e : Connective, e.Flat t) :
    c.Flat (chain d.join (ts.flatMap d.parts)) := by
  by_cases hcd : c = d
  · subst hcd
    refine ⟨ts.flatMap c.parts, fun x hx => ?_, rfl⟩
    obtain ⟨t, ht, hxt⟩ := mem_flatMap.1 hx
    exact (h t ht c).parts_of_mem hxt
  · have hother : ∀ us, c.parts (d.join us) = [d.join us] := by
      intro us
      cases c <;> cases d <;> first | rfl | exact absurd rfl hcd
    match hparts : ts.flatMap d.parts with
    | [] => exact flat_of_parts (hother [])
    | x :: y :: us => exact flat_of_parts (hother (x :: y :: us))
    | [x] =>
      obtain ⟨t, ht, hx⟩ := exists_parts_of_flatMap hparts
      have heq : t = x := by
        have hchain := (h t ht d).chain_parts
        rwa [hx, eq_comm] at hchain
      exact heq ▸ h t ht c

end Connective

namespace TypeExpr

mutual

/-- The form that types of one meaning share. -/
def normal : TypeExpr → TypeExpr
  | primitive kind => ref kind.render
  | array item => array (normal item)
  | readonlyArray item => readonlyArray (normal item)
  | union members => chain union ((normalTypes members).flatMap Connective.union.parts)
  | intersection members =>
    chain intersection ((normalTypes members).flatMap Connective.intersection.parts)
  | object properties => object (normalProperties properties)
  | record key value => generic "Record" [normal key, normal value]
  | literal value => ofLiteral value
  | ref name => ref name
  | generic name args => generic name (normalTypes args)
  | conditional check pattern matched otherwise =>
    conditional (normal check) (normal pattern) (normal matched) (normal otherwise)
  | infer name => infer name
  | keyof item => keyof (normal item)
  | raw text => raw text

def normalTypes : List TypeExpr → List TypeExpr
  | [] => []
  | type :: types => normal type :: normalTypes types

def normalProperties : List Property → List Property
  | [] => []
  | .mk name type isOptional :: properties =>
    .mk name (normal type) isOptional :: normalProperties properties

end

theorem normalTypes_eq (types : List TypeExpr) :
    normalTypes types = types.map normal := by
  induction types with
  | nil => rfl
  | cons t types ih => rw [normalTypes, ih, map_cons]

theorem normalProperties_eq (properties : List Property) :
    normalProperties properties = properties.map fun p =>
      .mk p.name p.type.normal p.isOptional := by
  induction properties with
  | nil => rfl
  | cons p properties ih =>
    obtain ⟨name, type, isOptional⟩ := p
    rw [normalProperties, ih, map_cons]
    rfl

theorem normal_join (c : Connective) (ts : List TypeExpr) :
    normal (c.join ts) = chain c.join ((ts.map normal).flatMap c.parts) := by
  rw [← normalTypes_eq]
  cases c with
  | union => exact normal.eq_4 ts
  | intersection => exact normal.eq_5 ts

theorem flat_normal_join {c d : Connective} {members : List TypeExpr}
    (h : ∀ m ∈ members, ∀ e : Connective, e.Flat (normal m)) :
    c.Flat (normal (d.join members)) := by
  rw [normal_join]
  exact Connective.flat_chain (List.forall_mem_map.2 h)

theorem flat_normal (t : TypeExpr) (c : Connective) : c.Flat (normal t) := by
  match t with
  | union members => exact flat_normal_join (d := .union) fun m hm e => flat_normal m e
  | intersection members =>
    exact flat_normal_join (d := .intersection) fun m hm e => flat_normal m e
  | literal value =>
    rcases value with value | value | value | _ <;> cases c
      <;> exact Connective.flat_of_parts rfl
  | primitive _ | array _ | readonlyArray _ | object _ | record _ _ | ref _
  | generic _ _ | conditional _ _ _ _
  | infer _ | keyof _ | raw _ => cases c <;> exact Connective.flat_of_parts rfl
termination_by sizeOf t

theorem parts_normal_join (c : Connective) (members : List TypeExpr) :
    c.parts (normal (c.join members)) = (members.map normal).flatMap c.parts := by
  rw [normal_join]
  refine Connective.parts_chain fun x hx => ?_
  obtain ⟨t, ht, hxt⟩ := mem_flatMap.1 hx
  obtain ⟨m, -, rfl⟩ := List.mem_map.1 ht
  exact (flat_normal m c).parts_of_mem hxt

theorem normal_chain (c : Connective) (ts : List TypeExpr) :
    normal (chain c.join ts) = chain c.join ((ts.map normal).flatMap c.parts) := by
  match ts with
  | [] => exact normal_join c []
  | [t] =>
    have hflat := (flat_normal t c).chain_parts
    rw [map_singleton, flatMap_singleton, hflat]
    rfl
  | t :: t' :: ts => exact normal_join c (t :: t' :: ts)

/-- Whether a node is printed unambiguously: the brackets of an array do not
reach past a readonly array, angle brackets hold something and no name is an
operator. -/
def readsBack : TypeExpr → Bool
  | array (readonlyArray _) | readonlyArray (readonlyArray _) => false
  | ref name => !operators.contains name
  | generic name args => !operators.contains name && !args.isEmpty
  | raw _ => false
  | _ => true

def isReadonlyArray : TypeExpr → Bool
  | readonlyArray _ => true
  | _ => false

theorem readsBack_array (item : TypeExpr) :
    (array item).readsBack = !item.isReadonlyArray := by
  cases item <;> rfl

theorem readsBack_readonlyArray (item : TypeExpr) :
    (readonlyArray item).readsBack = !item.isReadonlyArray := by
  cases item <;> rfl

/-! ## Unambiguous types -/

theorem exists_gather {α β γ : Type} {reads : α → Option (List β)} {f : β → List γ}
    {g : α → List γ} {xs : List α}
    (h : ∀ x ∈ xs, ∃ ys, reads x = some ys ∧ ys.flatMap f = g x) :
    ∃ ys, gather (xs.map reads) = some ys ∧ ys.flatMap f = xs.flatMap g := by
  induction xs with
  | nil => exact ⟨[], rfl, rfl⟩
  | cons x xs ih =>
    rw [forall_mem_cons] at h
    obtain ⟨ys, hys, hf⟩ := h.1
    obtain ⟨zs, hzs, hfs⟩ := ih h.2
    refine ⟨ys ++ zs, ?_, by rw [flatMap_append, hf, hfs, flatMap_cons]⟩
    rw [map_cons, gather, hys, hzs, bind_some, map_some]

theorem membersRead_join (c : Connective) (members : List TypeExpr) :
    c.membersRead (c.join members) = gather (members.map c.membersRead) := by
  cases c with
  | union => exact readUnion_eq members
  | intersection => exact readIntersection_eq members

theorem membersRead_eq {c : Connective} (h : ∀ members, t ≠ c.join members) :
    c.membersRead t = (reading t 0).map fun t => [t] := by
  cases c with
  | union => exact unionMembers_eq h
  | intersection => exact intersectionMembers_eq h

theorem reading_join (c : Connective) (members : List TypeExpr) :
    reading (c.join members) 0 = (gather (members.map c.membersRead)).map
      (chain c.join) := by
  rw [← membersRead_join]
  cases c with
  | union => exact (chain_unionMembers (union members)).symm
  | intersection => exact (chain_intersectionMembers (intersection members)).symm

theorem everywhere_join (c : Connective) {members : List TypeExpr} :
    (c.join members).Everywhere readsBack ↔ ∀ m ∈ members, m.Everywhere readsBack := by
  rw [everywhere_iff, Connective.children_join]
  cases c <;> exact and_iff_right rfl

theorem exists_reading_join {c : Connective} {members : List TypeExpr}
    (h : ∀ m ∈ members, ∃ us, c.membersRead m = some us
      ∧ us.flatMap (fun u => c.parts (normal u)) = c.parts (normal m)) :
    ∃ u, reading (c.join members) 0 = some u ∧ normal u = normal (c.join members) := by
  obtain ⟨us, hread, hus⟩ := exists_gather h
  refine ⟨chain c.join us, by rw [reading_join, hread, map_some], ?_⟩
  rw [normal_chain, normal_join, flatMap_map, flatMap_map, hus]

mutual

/-- An unambiguous type is read as a type of its meaning, in the brackets
behind it. -/
theorem reading_of_readsBack (t : TypeExpr) (h : t.Everywhere readsBack) (k : Nat)
    (hk : k = 0 ∨ t.isReadonlyArray = false) :
    ∃ u, reading t k = some (arrays k u) ∧ normal u = normal t := by
  -- What is no array is read without the brackets first.
  have hatom : t.isArray = false → (∃ u, reading t 0 = some u ∧ normal u = normal t) →
      ∃ u, reading t k = some (arrays k u) ∧ normal u = normal t := by
    rintro harray ⟨u, hread, hnormal⟩
    exact ⟨u, by rw [reading_eq_arrays harray, hread, map_some], hnormal⟩
  match t with
  | array item =>
    rw [everywhere_array, readsBack_array, Bool.not_eq_true'] at h
    obtain ⟨u, hread, hnormal⟩ := reading_of_readsBack item h.2 (k + 1) (.inr h.1)
    exact ⟨array u, by rw [reading, hread, arrays], by rw [normal, normal, hnormal]⟩
  | readonlyArray item =>
    obtain rfl : k = 0 := hk.resolve_right fun hplain => nomatch hplain
    rw [everywhere_readonlyArray, readsBack_readonlyArray, Bool.not_eq_true'] at h
    obtain ⟨u, hread, hnormal⟩ := reading_of_readsBack item h.2 1 (.inr h.1)
    exact ⟨readonlyArray u, by rw [reading, hread]; rfl, by rw [normal, normal, hnormal]⟩
  | primitive kind => exact hatom rfl ⟨ref kind.render, rfl, rfl⟩
  | literal value =>
    refine hatom rfl ⟨ofLiteral value, rfl, ?_⟩
    rcases value with value | value | value | _ <;> rfl
  | infer name => exact hatom rfl ⟨infer name, rfl, rfl⟩
  | raw text => cases everywhere_raw.1 h
  | ref name =>
    have hname : operators.contains name = false := by
      simpa [readsBack] using everywhere_ref.1 h
    exact hatom rfl ⟨ref name, by rw [reading, hname]; rfl, rfl⟩
  | keyof item =>
    obtain ⟨u, hread, hnormal⟩ :=
      reading_of_readsBack item (everywhere_keyof.1 h).2 0 (.inl rfl)
    exact hatom rfl ⟨keyof u, by
      rw [reading, hread]; rfl, by rw [normal, normal, hnormal]⟩
  | record key value =>
    obtain ⟨-, hkey, hvalue⟩ := everywhere_record.1 h
    obtain ⟨u, hu, hunormal⟩ := reading_of_readsBack key hkey 0 (.inl rfl)
    obtain ⟨v, hv, hvnormal⟩ := reading_of_readsBack value hvalue 0 (.inl rfl)
    refine hatom rfl ⟨generic "Record" [u, v], by rw [reading, hu, hv]; rfl, ?_⟩
    rw [normal, normal, normalTypes_eq, map_cons, map_singleton, hunormal, hvnormal]
  | conditional check pattern matched otherwise =>
    obtain ⟨-, hcheck, hpattern, hmatched, hotherwise⟩ := everywhere_conditional.1 h
    obtain ⟨u₁, hu₁, hn₁⟩ := reading_of_readsBack check hcheck 0 (.inl rfl)
    obtain ⟨u₂, hu₂, hn₂⟩ := reading_of_readsBack pattern hpattern 0 (.inl rfl)
    obtain ⟨u₃, hu₃, hn₃⟩ := reading_of_readsBack matched hmatched 0 (.inl rfl)
    obtain ⟨u₄, hu₄, hn₄⟩ := reading_of_readsBack otherwise hotherwise 0 (.inl rfl)
    refine hatom rfl ⟨conditional u₁ u₂ u₃ u₄,
      by rw [reading, hu₁, hu₂, hu₃, hu₄]; rfl, ?_⟩
    rw [normal, normal, hn₁, hn₂, hn₃, hn₄]
  | generic name args =>
    rw [everywhere_generic, readsBack, Bool.and_eq_true, Bool.not_eq_true',
      Bool.not_eq_true'] at h
    obtain ⟨⟨hname, hargs⟩, hall⟩ := h
    have heach : ∀ t ∈ args, ∃ us, ((reading t 0).map fun u => [u]) = some us
        ∧ us.flatMap (fun u => [normal u]) = [normal t] := by
      intro t ht
      obtain ⟨u, hread, hnormal⟩ := reading_of_readsBack t (hall t ht) 0 (.inl rfl)
      exact ⟨[u], by rw [hread]; rfl, by rw [flatMap_singleton, hnormal]⟩
    obtain ⟨us, hread, hus⟩ := exists_gather heach
    rw [← map_eq_flatMap, ← map_eq_flatMap] at hus
    refine hatom rfl ⟨generic name us, ?_,
      by rw [normal, normal, normalTypes_eq, normalTypes_eq, hus]⟩
    rw [reading, hname, hargs, readTypes_eq, hread]
    rfl
  | object properties =>
    have heach : ∀ p ∈ properties, ∃ ps,
        ((reading p.type 0).map fun u => [Property.mk p.name u p.isOptional]) = some ps
        ∧ ps.flatMap (fun p => [Property.mk p.name p.type.normal p.isOptional])
          = [Property.mk p.name p.type.normal p.isOptional] := by
      intro p hp
      have hsmaller := Property.sizeOf_type_lt hp
      obtain ⟨u, hread, hnormal⟩ :=
        reading_of_readsBack p.type ((everywhere_object.1 h).2 p hp) 0 (.inl rfl)
      refine ⟨[.mk p.name u p.isOptional], by rw [hread]; rfl, ?_⟩
      rw [← hnormal]
      rfl
    obtain ⟨ps, hread, hps⟩ := exists_gather heach
    rw [← map_eq_flatMap, ← map_eq_flatMap] at hps
    refine hatom rfl ⟨object ps, ?_,
      by rw [normal, normal, normalProperties_eq, normalProperties_eq, hps]⟩
    rw [reading, readProperties_eq, hread]
    rfl
  | union members =>
    refine hatom rfl (exists_reading_join (c := .union) fun m hm => ?_)
    exact membersRead_of_readsBack .union m ((everywhere_union.1 h).2 m hm)
  | intersection members =>
    refine hatom rfl (exists_reading_join (c := .intersection) fun m hm => ?_)
    exact membersRead_of_readsBack .intersection m ((everywhere_intersection.1 h).2 m hm)
termination_by (sizeOf t, 0)

theorem membersRead_of_readsBack (c : Connective) (m : TypeExpr)
    (h : m.Everywhere readsBack) :
    ∃ us, c.membersRead m = some us
      ∧ us.flatMap (fun u => c.parts (normal u)) = c.parts (normal m) := by
  by_cases hjoin : ∃ members, m = c.join members
  · obtain ⟨members, rfl⟩ := hjoin
    have heach : ∀ m ∈ members, ∃ us, c.membersRead m = some us
        ∧ us.flatMap (fun u => c.parts (normal u)) = c.parts (normal m) := by
      intro m hm
      have hsmaller := Connective.sizeOf_lt_join c hm
      exact membersRead_of_readsBack c m ((everywhere_join c).1 h m hm)
    rw [membersRead_join, parts_normal_join, flatMap_map]
    exact exists_gather heach
  · obtain ⟨u, hread, hnormal⟩ := reading_of_readsBack m h 0 (.inl rfl)
    refine ⟨[u], ?_, by rw [flatMap_singleton, hnormal]⟩
    rw [membersRead_eq fun members heq => hjoin ⟨members, heq⟩, hread]
    rfl
termination_by (sizeOf m, 1)

end

/-! ## Weights -/

/-- A quantity of the nodes, summed up over a type. -/
def total (f : TypeExpr → Nat) (t : TypeExpr) : Nat :=
  (t.nodes.map f).sum

/-- The number of readonly arrays in a type. -/
def readonlyArrays : TypeExpr → Nat :=
  total fun t => t.isReadonlyArray.toNat

/-- The number of readonly arrays in the item of an array. -/
def readonlyItems : TypeExpr → Nat
  | array item | readonlyArray item => readonlyArrays item
  | _ => 0

/-- The number of brackets around the readonly arrays in a type, counted for
each of them. -/
def wrappings : TypeExpr → Nat :=
  total readonlyItems

section Total

variable {f : TypeExpr → Nat}

theorem total_eq (t : TypeExpr) : total f t = f t + (t.children.map (total f)).sum := by
  rw [total, nodes_eq, map_cons, sum_cons]
  congr 1
  induction t.children with
  | nil => rfl
  | cons s ss ih =>
    rw [flatMap_cons, map_append, sum_append, ih, map_cons, sum_cons, total]

theorem total_array (item : TypeExpr) :
    total f (array item) = f (array item) + total f item :=
  sum_cons

theorem total_readonlyArray (item : TypeExpr) :
    total f (readonlyArray item) = f (readonlyArray item) + total f item :=
  sum_cons

/-- Only arrays count. -/
def CountsArrays (f : TypeExpr → Nat) : Prop :=
  ∀ t : TypeExpr, t.isArray = false → f t = 0

variable (hf : CountsArrays f)
include hf

theorem total_of_children (harray : t.isArray = false) :
    total f t = (t.children.map (total f)).sum := by
  rw [total_eq, hf t harray, Nat.zero_add]

theorem total_join (c : Connective) (members : List TypeExpr) :
    total f (c.join members) = (members.map (total f)).sum := by
  rw [total_of_children hf (c.isArray_join members), Connective.children_join]

theorem total_chain (c : Connective) (ts : List TypeExpr) :
    total f (chain c.join ts) = (ts.map (total f)).sum := by
  match ts with
  | [] => exact total_join hf c []
  | [t] => rw [map_singleton, sum_singleton, chain]
  | t :: t' :: ts => exact total_join hf c (t :: t' :: ts)

theorem sum_parts (c : Connective) (t : TypeExpr) :
    ((c.parts t).map (total f)).sum = total f t := by
  by_cases hjoin : ∃ members, t = c.join members
  · obtain ⟨members, rfl⟩ := hjoin
    rw [Connective.parts_join, total_join hf]
  · have hparts : c.parts t = [t] := by
      cases c <;> cases t <;> first | rfl | exact absurd ⟨_, rfl⟩ hjoin
    rw [hparts, map_singleton, sum_singleton]

theorem total_normal_join {c : Connective} {members : List TypeExpr}
    (h : ∀ m ∈ members, total f (normal m) = total f m) :
    total f (normal (c.join members)) = total f (c.join members) := by
  rw [normal_join, total_chain hf, total_join hf]
  induction members with
  | nil => rfl
  | cons m members ih =>
    rw [forall_mem_cons] at h
    rw [map_cons, flatMap_cons, map_append, sum_append, sum_parts hf, ih h.2, h.1,
      map_cons, sum_cons]

/-- A type weighs as much as its normal form. -/
theorem total_normal (harray : ∀ item, f (array (normal item)) = f (array item))
    (hreadonly : ∀ item, f (readonlyArray (normal item)) = f (readonlyArray item))
    (t : TypeExpr) :
    total f (normal t) = total f t := by
  have hsame : t.isArray = false → (normal t).isArray = false →
      (normal t).children = t.children.map normal →
      total f (normal t) = total f t := by
    intro ht hnormal hchildren
    rw [total_of_children hf hnormal, total_of_children hf ht, hchildren, List.map_map]
    refine congrArg List.sum (map_congr_left fun s hs => ?_)
    have hsmaller := sizeOf_lt_of_mem_children hs
    exact total_normal harray hreadonly s
  match t with
  | array item =>
    rw [normal, total_array, total_array, harray, total_normal harray hreadonly item]
  | readonlyArray item =>
    rw [normal, total_readonlyArray, total_readonlyArray, hreadonly,
      total_normal harray hreadonly item]
  | union members =>
    exact total_normal_join hf (c := .union) fun m hm => total_normal harray hreadonly m
  | intersection members =>
    exact total_normal_join hf (c := .intersection) fun m hm =>
      total_normal harray hreadonly m
  | generic name args =>
    exact hsame rfl rfl (by rw [normal, children, children, normalTypes_eq])
  | object properties =>
    refine hsame rfl rfl ?_
    rw [normal, children, children, normalProperties_eq, List.map_map, List.map_map]
    rfl
  | literal value =>
    exact hsame rfl (by rcases value with _ | _ | _ | _ <;> rfl)
      (by rcases value with _ | _ | _ | _ <;> rfl)
  | keyof _ | record _ _ | conditional _ _ _ _ | primitive _ | ref _ | infer _
  | raw _ => exact hsame rfl rfl rfl
termination_by sizeOf t

end Total

theorem countsArrays_isReadonlyArray : CountsArrays fun t => t.isReadonlyArray.toNat := by
  intro t harray
  cases t <;> first | rfl | cases harray

theorem countsArrays_readonlyItems : CountsArrays readonlyItems := by
  intro t harray
  cases t <;> first | rfl | cases harray

theorem readonlyArrays_normal (t : TypeExpr) :
    readonlyArrays (normal t) = readonlyArrays t :=
  total_normal countsArrays_isReadonlyArray (fun _ => rfl) (fun _ => rfl) t

theorem wrappings_normal (t : TypeExpr) : wrappings (normal t) = wrappings t :=
  total_normal countsArrays_readonlyItems readonlyArrays_normal readonlyArrays_normal t

theorem readonlyArrays_arrays (k : Nat) (t : TypeExpr) :
    readonlyArrays (arrays k t) = readonlyArrays t := by
  induction k generalizing t with
  | zero => rfl
  | succ k ih =>
    rw [arrays, ih, readonlyArrays, total_array]
    exact Nat.zero_add _

theorem wrappings_arrays (k : Nat) (t : TypeExpr) :
    wrappings (arrays k t) = wrappings t + k * readonlyArrays t := by
  induction k generalizing t with
  | zero => rw [arrays, Nat.zero_mul, Nat.add_zero]
  | succ k ih =>
    have hinner : readonlyArrays (array t) = readonlyArrays t := readonlyArrays_arrays 1 t
    have houter : wrappings (array t) = readonlyArrays t + wrappings t := total_array t
    rw [arrays, ih, hinner, houter, Nat.succ_mul]
    omega

/-! ## Ambiguous types -/

/-- Two weights of something read against those of what was printed: the
first is kept, the second never grows, and it is kept only if nothing is
ambiguous. -/
structure Weighs (isClear : Prop) (r w r' w' : Nat) : Prop where
  eq : r = r'
  le : w ≤ w'
  isClear_of_eq : w = w' → isClear

theorem weighs_gather {α β : Type} {reads : α → Option (List β)} {r w : β → Nat}
    {r' w' : α → Nat} {isClear : α → Prop} {xs : List α} {ys : List β}
    (h : ∀ x ∈ xs, ∀ ys, reads x = some ys →
      Weighs (isClear x) (ys.map r).sum (ys.map w).sum (r' x) (w' x))
    (hys : gather (xs.map reads) = some ys) :
    Weighs (∀ x ∈ xs, isClear x) (ys.map r).sum (ys.map w).sum (xs.map r').sum
      (xs.map w').sum := by
  induction xs generalizing ys with
  | nil =>
    obtain rfl := Option.some.inj hys
    exact ⟨rfl, Nat.le_refl _, fun _ x hx => nomatch hx⟩
  | cons x xs ih =>
    rw [forall_mem_cons] at h
    rw [map_cons, gather] at hys
    obtain ⟨us, hus, hmap⟩ := bind_eq_some_iff.1 hys
    obtain ⟨vs, hvs, rfl⟩ := map_eq_some_iff.1 hmap
    have hfirst := h.1 us hus
    have hrest := ih h.2 hvs
    have hfirst_le := hfirst.le
    have hrest_le := hrest.le
    simp only [map_append, sum_append, map_cons, sum_cons]
    refine ⟨by rw [hfirst.eq, hrest.eq], by omega, fun heq => forall_mem_cons.2 ⟨?_, ?_⟩⟩
    · exact hfirst.isClear_of_eq (by omega)
    · exact hrest.isClear_of_eq (by omega)

/-- What the reader makes of a type, against the type. -/
abbrev Weighed (isClear : Prop) (u t : TypeExpr) : Prop :=
  Weighs isClear (readonlyArrays u) (wrappings u) (readonlyArrays t) (wrappings t)

theorem readonlyArrays_eq (h : t.isArray = false) :
    readonlyArrays t = (t.children.map readonlyArrays).sum :=
  total_of_children countsArrays_isReadonlyArray h

theorem wrappings_eq (h : t.isArray = false) :
    wrappings t = (t.children.map wrappings).sum :=
  total_of_children countsArrays_readonlyItems h

/-! ### One node at a time -/

/-- What a type is read as weighs no more than the type, and less unless the
type is unambiguous. -/
def IsWeighed (t : TypeExpr) : Prop :=
  ∀ u, reading t 0 = some u → Weighed (t.Everywhere readsBack) u t

/-- The same with `k` pairs of brackets behind the type, which wrap all its
readonly arrays. -/
def IsWeighedIn (k : Nat) (t : TypeExpr) : Prop :=
  ∀ u, reading t k = some u →
    Weighs (t.Everywhere readsBack ∧ (0 < k → t.isReadonlyArray = false))
    (readonlyArrays u) (wrappings u) (readonlyArrays t)
    (wrappings t + k * readonlyArrays t)

theorem IsWeighedIn.isWeighed (h : t.IsWeighedIn 0) : t.IsWeighed := by
  intro u hu
  have hread := h u hu
  rw [Nat.zero_mul, Nat.add_zero] at hread
  exact ⟨hread.eq, hread.le, fun heq => (hread.isClear_of_eq heq).1⟩

theorem IsWeighed.inBrackets (h : t.IsWeighed) (harray : t.isArray = false) (k : Nat) :
    t.IsWeighedIn k := by
  intro u hu
  have hplain : t.isReadonlyArray = false := by cases t <;> first | rfl | cases harray
  rw [reading_eq_arrays harray] at hu
  obtain ⟨v, hv, rfl⟩ := map_eq_some_iff.1 hu
  have hweighed := h v hv
  have hle := hweighed.le
  rw [readonlyArrays_arrays, wrappings_arrays, hweighed.eq]
  exact ⟨rfl, by omega, fun heq => ⟨hweighed.isClear_of_eq (by omega), fun _ => hplain⟩⟩

theorem isWeighedIn_array {k : Nat} (h : item.IsWeighedIn (k + 1)) :
    (array item).IsWeighedIn k := by
  intro u hu
  rw [reading] at hu
  have hitem := h u hu
  have hr : readonlyArrays (array item) = readonlyArrays item :=
    readonlyArrays_arrays 1 item
  have hw : wrappings (array item) = readonlyArrays item + wrappings item :=
    total_array item
  have hle := hitem.le
  rw [Nat.succ_mul] at hle
  rw [hr, hw]
  refine ⟨hitem.eq, by omega, fun heq => ?_⟩
  obtain ⟨hclear, hreadonly⟩ := hitem.isClear_of_eq (by rw [Nat.succ_mul]; omega)
  refine ⟨everywhere_array.2 ⟨?_, hclear⟩, fun _ => rfl⟩
  rw [readsBack_array, hreadonly (Nat.succ_pos k)]
  rfl

/-- The reader leaves one pair of brackets for the readonly array, so those
behind it are lost to it. -/
theorem isWeighedIn_readonlyArray {k : Nat} (h : item.IsWeighedIn (k + 1)) :
    (readonlyArray item).IsWeighedIn k := by
  intro u hu
  rw [reading] at hu
  obtain ⟨v, hv, hasReadonly⟩ := bind_eq_some_iff.1 hu
  obtain ⟨w, rfl⟩ : ∃ w, v = array w := by
    cases v with
    | array w => exact ⟨w, rfl⟩
    | _ => cases hasReadonly
  obtain rfl := Option.some.inj hasReadonly
  have hitem := h _ hv
  have hle := hitem.le
  have hsame : readonlyArrays w = readonlyArrays item :=
    (readonlyArrays_arrays 1 w).symm.trans hitem.eq
  have hr : ∀ x, readonlyArrays (readonlyArray x) = 1 + readonlyArrays x :=
    fun x => total_readonlyArray x
  have hw : ∀ x, wrappings (readonlyArray x) = wrappings (array x) :=
    fun x => total_readonlyArray x
  have hitemWeight : wrappings (array item) = readonlyArrays item + wrappings item :=
    total_array item
  rw [Nat.succ_mul] at hle
  rw [hr, hr, hw, hw, hsame, hitemWeight, Nat.mul_add, Nat.mul_one]
  refine ⟨rfl, by omega, fun heq => ?_⟩
  obtain rfl : k = 0 := by omega
  obtain ⟨hclear, hreadonly⟩ := hitem.isClear_of_eq (by rw [Nat.succ_mul]; omega)
  refine ⟨everywhere_readonlyArray.2 ⟨?_, hclear⟩,
    fun hpos => absurd hpos (Nat.lt_irrefl 0)⟩
  rw [readsBack_readonlyArray, hreadonly Nat.one_pos]
  rfl

theorem weighs_readTypes {us : List TypeExpr} (h : ∀ t ∈ ts, t.IsWeighed)
    (hus : readTypes ts = some us) :
    Weighs (∀ t ∈ ts, t.Everywhere readsBack) (us.map readonlyArrays).sum
      (us.map wrappings).sum
      (ts.map readonlyArrays).sum (ts.map wrappings).sum := by
  rw [readTypes_eq] at hus
  refine weighs_gather (fun t ht us hread => ?_) hus
  obtain ⟨u, hu, rfl⟩ := map_eq_some_iff.1 hread
  exact h t ht u hu

theorem map_readProperties (properties : List Property) :
    (readProperties properties).map (List.map Property.type)
      = readTypes (properties.map Property.type) := by
  induction properties with
  | nil => rfl
  | cons p properties ih =>
    obtain ⟨name, type, isOptional⟩ := p
    rw [readProperties, map_cons, readTypes, ← ih, Property.type, Option.map_bind]
    simp only [Function.comp_def, Option.map_map, map_cons, Property.type]

/-- What is no array and no chain is read as a type of what its children are
read as. -/
theorem children_of_reading {v : TypeExpr} (harray : t.isArray = false)
    (hjoin : ∀ (c : Connective) members, t ≠ c.join members) (h : reading t 0 = some v) :
    v.isArray = false ∧ t.readsBack = true ∧ readTypes t.children = some v.children := by
  cases t with
  | array | readonlyArray => cases harray
  | union members => exact absurd rfl (hjoin .union members)
  | intersection members => exact absurd rfl (hjoin .intersection members)
  | raw => cases h
  | primitive | infer =>
    obtain rfl := Option.some.inj h
    exact ⟨rfl, rfl, rfl⟩
  | literal value =>
    obtain rfl := Option.some.inj h
    rcases value with _ | _ | _ | _ <;> exact ⟨rfl, rfl, rfl⟩
  | ref name =>
    rw [reading] at h
    split at h
    · cases h
    · rename_i hname
      obtain rfl := Option.some.inj h
      exact ⟨rfl, by simpa [readsBack] using hname, rfl⟩
  | keyof item =>
    rw [reading] at h
    obtain ⟨u, hu, rfl⟩ := map_eq_some_iff.1 h
    exact ⟨rfl, rfl, by simp [children, readTypes, hu, arrays]⟩
  | record key value =>
    rw [reading] at h
    obtain ⟨u₁, hu₁, hrest⟩ := bind_eq_some_iff.1 h
    obtain ⟨u₂, hu₂, rfl⟩ := map_eq_some_iff.1 hrest
    exact ⟨rfl, rfl, by simp [children, readTypes, hu₁, hu₂, arrays]⟩
  | conditional check pattern matched otherwise =>
    rw [reading] at h
    obtain ⟨u₁, hu₁, hrest⟩ := bind_eq_some_iff.1 h
    obtain ⟨u₂, hu₂, hrest⟩ := bind_eq_some_iff.1 hrest
    obtain ⟨u₃, hu₃, hrest⟩ := bind_eq_some_iff.1 hrest
    obtain ⟨u₄, hu₄, rfl⟩ := map_eq_some_iff.1 hrest
    exact ⟨rfl, rfl, by simp [children, readTypes, hu₁, hu₂, hu₃, hu₄, arrays]⟩
  | generic name args =>
    rw [reading] at h
    split at h
    · cases h
    · rename_i hhead
      obtain ⟨us, hus, rfl⟩ := map_eq_some_iff.1 h
      refine ⟨rfl, ?_, hus⟩
      rw [readsBack, ← Bool.not_or]
      exact Bool.not_eq_true' _ ▸ Bool.eq_false_iff.2 hhead
  | object properties =>
    rw [reading] at h
    obtain ⟨ps, hps, rfl⟩ := map_eq_some_iff.1 h
    exact ⟨rfl, rfl, by rw [children, ← map_readProperties, hps]; rfl⟩

theorem isWeighed_of_children (harray : t.isArray = false)
    (hjoin : ∀ (c : Connective) members, t ≠ c.join members)
    (h : ∀ s ∈ t.children, s.IsWeighed) :
    t.IsWeighed := by
  intro v hv
  obtain ⟨hread, hclear, hchildren⟩ := children_of_reading harray hjoin hv
  have hweighs := weighs_readTypes h hchildren
  rw [Weighed, readonlyArrays_eq hread, wrappings_eq hread, readonlyArrays_eq harray,
    wrappings_eq harray]
  exact ⟨hweighs.eq, hweighs.le, fun heq =>
    everywhere_iff.2 ⟨hclear, hweighs.isClear_of_eq heq⟩⟩

/-- What a member contributes to a chain, against the member. -/
def IsWeighedMember (c : Connective) (m : TypeExpr) : Prop :=
  ∀ us, c.membersRead m = some us →
    Weighs (m.Everywhere readsBack) (us.map readonlyArrays).sum (us.map wrappings).sum
      (readonlyArrays m) (wrappings m)

section Members

variable {c : Connective} {members : List TypeExpr}
  (h : ∀ m ∈ members, IsWeighedMember c m)

include h

theorem isWeighed_join : (c.join members).IsWeighed := by
  intro v hv
  rw [reading_join] at hv
  obtain ⟨us, hus, rfl⟩ := map_eq_some_iff.1 hv
  have hr : readonlyArrays (chain c.join us) = (us.map readonlyArrays).sum :=
    total_chain countsArrays_isReadonlyArray c us
  have hw : wrappings (chain c.join us) = (us.map wrappings).sum :=
    total_chain countsArrays_readonlyItems c us
  rw [Weighed, readonlyArrays_eq (c.isArray_join members),
    wrappings_eq (c.isArray_join members), c.children_join, everywhere_join, hr, hw]
  exact weighs_gather h hus

theorem isWeighedMember_join : IsWeighedMember c (c.join members) := by
  intro us hus
  rw [membersRead_join] at hus
  rw [readonlyArrays_eq (c.isArray_join members), wrappings_eq (c.isArray_join members),
    c.children_join, everywhere_join]
  exact weighs_gather h hus

end Members

theorem IsWeighed.isWeighedMember {c : Connective} {m : TypeExpr} (h : m.IsWeighed)
    (hjoin : ∀ members, m ≠ c.join members) : IsWeighedMember c m := by
  intro us hus
  rw [membersRead_eq hjoin] at hus
  obtain ⟨u, hu, rfl⟩ := map_eq_some_iff.1 hus
  rw [map_singleton, sum_singleton, map_singleton, sum_singleton]
  exact h u hu

/-! ### All types -/

mutual

theorem isWeighedIn (t : TypeExpr) (k : Nat) : t.IsWeighedIn k := by
  have hplain : t.isArray = false → (∀ (c : Connective) members, t ≠ c.join members) →
      t.IsWeighedIn k := by
    intro harray hjoin
    refine (isWeighed_of_children harray hjoin fun s hs => ?_).inBrackets harray k
    have hsmaller := sizeOf_lt_of_mem_children hs
    exact (isWeighedIn s 0).isWeighed
  match t with
  | array item => exact isWeighedIn_array (isWeighedIn item (k + 1))
  | readonlyArray item => exact isWeighedIn_readonlyArray (isWeighedIn item (k + 1))
  | union members =>
    exact (isWeighed_join (c := .union) fun m hm =>
      isWeighedMember .union m).inBrackets rfl k
  | intersection members =>
    exact (isWeighed_join (c := .intersection) fun m hm =>
      isWeighedMember .intersection m).inBrackets rfl k
  | primitive _ | object _ | record _ _ | literal _ | ref _ | generic _ _
  | conditional _ _ _ _ | infer _ | keyof _
  | raw _ => exact hplain rfl fun c members => by cases c <;> exact nofun
termination_by (sizeOf t, 0)

theorem isWeighedMember (c : Connective) (m : TypeExpr) : IsWeighedMember c m := by
  by_cases hjoin : ∃ members, m = c.join members
  · obtain ⟨members, rfl⟩ := hjoin
    refine isWeighedMember_join fun m hm => ?_
    have hsmaller := Connective.sizeOf_lt_join c hm
    exact isWeighedMember c m
  · exact (isWeighedIn m 0).isWeighed.isWeighedMember fun members heq =>
      hjoin ⟨members, heq⟩
termination_by (sizeOf m, 1)

end

/-- Only if all its nodes are unambiguous is a type read as one of its
meaning. -/
theorem readsBack_of_reading {u : TypeExpr} (h : reading t 0 = some u)
    (hnormal : normal u = normal t) :
    t.Everywhere readsBack := by
  refine ((isWeighedIn t 0).isWeighed u h).isClear_of_eq ?_
  rw [← wrappings_normal, hnormal, wrappings_normal]

end TypeExpr

/-! ## Printing and parsing -/

theorem Alphabet.parse_eq {a : Alphabet} {s : String} (ht : t.Writable a)
    (hs : a.Lexes s t.isBroken t.tokens) :
    a.parse s = if t.isBroken then none else t.reading 0 := by
  have hread := (reads_typeAt a t.tokens.length).reads t ht (Nat.le_refl _)
    [] fun u hu => nomatch hu
  rw [append_nil] at hread
  rw [parse, lex_eq hs]
  cases t.isBroken with
  | true => rfl
  | false =>
    simp only [Bool.false_eq_true, if_false, bind_some, hread]
    cases t.reading 0 <;> rfl

/-- **Which printed types read back.** Whatever can be printed is parsed
alike in both of its forms. The whole text is parsed, and as a type of the
same meaning, exactly if no array or readonly array is one of readonly
arrays, no named type has empty angle brackets, no name is an operator and
no quoted text breaks the line. -/
theorem printed_type_reads_back_iff (a : Alphabet) (t : TypeExpr) (h : t.Writable a) :
    a.parse t.renderChain = a.parse t.render
      ∧ ((a.parse t.render).map TypeExpr.normal = some t.normal
          ↔ t.Everywhere TypeExpr.readsBack ∧ t.isBroken = false) := by
  have hline := Alphabet.parse_eq h (Alphabet.lexes_render t h)
  have hlines := Alphabet.parse_eq h (Alphabet.lexes_renderChain t h)
  refine ⟨hlines.trans hline.symm, ?_⟩
  rw [hline]
  constructor
  · intro hparsed
    obtain ⟨u, hu, hnormal⟩ := map_eq_some_iff.1 hparsed
    cases hbroken : t.isBroken with
    | true =>
      rw [hbroken] at hu
      cases hu
    | false =>
      rw [hbroken] at hu
      exact ⟨TypeExpr.readsBack_of_reading hu hnormal, rfl⟩
  · rintro ⟨hclear, hbroken⟩
    obtain ⟨u, hread, hnormal⟩ := TypeExpr.reading_of_readsBack t hclear 0 (.inl rfl)
    rw [hbroken, if_neg Bool.false_ne_true, hread]
    exact congrArg some hnormal

/-- The type
`T extends readonly (keyof U)[] ? { "a-b"?: (A | B) & C } : Record<string, -1 | null>[]`. -/
def intricateType : TypeExpr :=
  .conditional (.ref "T") (.readonlyArray (.keyof (.ref "U")))
    (.object [.optional "a-b" (.intersection [.union [.ref "A", .ref "B"], .ref "C"])])
    (.array (.record .string (.nullable (.literal (.int (-1))))))

theorem printed_type_reads_back_intricateType :
    intricateType.Writable .ascii ∧ intricateType.Everywhere TypeExpr.readsBack
      ∧ intricateType.isBroken = false
      ∧ (Alphabet.ascii.parse intricateType.render).map TypeExpr.normal
        = some intricateType.normal := by
  have hwritable : intricateType.Writable .ascii := by decide
  have hclear : intricateType.Everywhere TypeExpr.readsBack := by decide
  have hbroken : intricateType.isBroken = false := by decide
  exact ⟨hwritable, hclear, hbroken,
    (printed_type_reads_back_iff .ascii intricateType hwritable).2.2 ⟨hclear, hbroken⟩⟩

/-- An array of readonly arrays is printed like a readonly array of arrays,
and read as one. -/
theorem array_of_readonlyArrays_misread :
    (TypeExpr.array (.readonlyArray .string)).Writable .ascii
      ∧ (TypeExpr.array (.readonlyArray .string)).render = "readonly string[][]"
      ∧ Alphabet.ascii.parse "readonly string[][]"
        = some (.readonlyArray (.array (.ref "string")))
      ∧ (Alphabet.ascii.parse "readonly string[][]").map TypeExpr.normal
        ≠ some (TypeExpr.array (.readonlyArray .string)).normal := by
  have hwritable : (TypeExpr.array (.readonlyArray .string)).Writable .ascii := by decide
  have hrender : (TypeExpr.array (.readonlyArray .string)).render
      = "readonly string[][]" := by decide
  have hparse := Alphabet.parse_eq hwritable (Alphabet.lexes_render _ hwritable)
  rw [hrender] at hparse
  refine ⟨hwritable, hrender, hparse, ?_⟩
  rw [hparse]
  exact fun hsame => nomatch Option.some.inj hsame

end TypeScript

end TypedContent
