import Mathlib.Data.List.Forall2
import TypedContent.Proofs.Schema.Assembly
import TypedContent.Proofs.Schema.References

/-!
# One schema for every order of declarations

A source may list entities, components and fields in any order. As long as
no UID is declared twice in a list and no field twice in an entity, the
schema is the same, and it has one order of its own: by UIDs, and within an
entity by the names of the fields, in each of the five lists
(`declaration_order_irrelevant`).

That the order is lost is `Schema.assemble_eq_of_perm`: distinct keys leave
only one way to sort. The order of the result comes from the same sorting,
because every list of an entity is made of some of its sorted fields and
keeps their names (`sublist_map_filterMap`).
-/

namespace TypedContent

open List

/-! ## Rearranged declarations -/

namespace DeclaredEntity

/-- The same declaration with its fields in another order. -/
structure Rearranged (e e' : DeclaredEntity) : Prop where
  uid : e.uid = e'.uid
  kind : e.kind = e'.kind
  fields : e.fields.Perm e'.fields

/-- No two fields have the same name. -/
def HasDistinctFields (e : DeclaredEntity) : Prop :=
  (e.fields.map DeclaredField.name).Nodup

theorem Rearranged.sorted_eq {e e' : DeclaredEntity} (h : e.Rearranged e')
    (hfields : e.HasDistinctFields) :
    e.sorted = e'.sorted :=
  sorted_eq_of_perm h.uid h.kind h.fields hfields

/-- The same declarations in another order, each with its fields in another
order. -/
def ListRearranged (es es' : List DeclaredEntity) : Prop :=
  ∃ ds, es.Perm ds ∧ List.Forall₂ Rearranged ds es'

theorem ListRearranged.perm_sorted {es es' : List DeclaredEntity}
    (h : ListRearranged es es') (hfields : ∀ e ∈ es, e.HasDistinctFields) :
    (es.map sorted).Perm (es'.map sorted) := by
  obtain ⟨ds, hperm, hrearranged⟩ := h
  have hds : ∀ d ∈ ds, d.HasDistinctFields := fun d hd => hfields d (hperm.mem_iff.2 hd)
  have hsame : ds.map sorted = es'.map sorted := by
    clear hperm
    induction hrearranged with
    | nil => rfl
    | cons hfirst _ ih =>
      rw [forall_mem_cons] at hds
      rw [map_cons, map_cons, hfirst.sorted_eq hds.1, ih hds.2]
  exact hsame ▸ hperm.map sorted

end DeclaredEntity

/-! ## The order of the result -/

/-- The fields in each of the lists of an entity have strictly increasing
names. -/
structure Entity.Ordered (e : Entity) : Prop where
  attributes : (e.attributes.map Attribute.name).Pairwise (· < ·)
  relations : (e.relations.map Relation.name).Pairwise (· < ·)
  media : (e.media.map MediaField.name).Pairwise (· < ·)
  components : (e.components.map ComponentField.name).Pairwise (· < ·)
  zones : (e.zones.map ZoneField.name).Pairwise (· < ·)

/-- The entities have strictly increasing UIDs, so have the components, and
all of their fields are in order. -/
structure Schema.Ordered (s : Schema) : Prop where
  entities : (s.entities.map Entity.uid).Pairwise (· < ·)
  components : (s.components.map Entity.uid).Pairwise (· < ·)
  fields : ∀ e ∈ s.all, e.Ordered

theorem DeclaredEntity.ordered_assemble {e : DeclaredEntity} (h : e.HasDistinctFields)
    (known : Known) (filter : Filter) (kind : EntityKind) :
    (e.assemble known filter kind).Ordered := by
  have hkept : ((e.keptFields filter).map DeclaredField.name).Pairwise (· < ·) :=
    (pairwise_lt_sortByKey h).sublist (filter_sublist.map DeclaredField.name)
  exact
    { attributes := hkept.sublist
        (sublist_map_filterMap (fun _ _ => DeclaredField.attribute?_eq_some) _)
      relations :=
        hkept.sublist (sublist_map_filterMap
          (fun _ _ hf => (DeclaredField.relation?_eq_some hf).1) _)
      media :=
        hkept.sublist (sublist_map_filterMap
          (fun _ _ => DeclaredField.media?_eq_some) _)
      components :=
        hkept.sublist (sublist_map_filterMap
          (fun _ _ hf => (DeclaredField.component?_eq_some hf).1) _)
      zones :=
        hkept.sublist (sublist_map_filterMap
          (fun _ _ hf => (DeclaredField.zone?_eq_some hf).2.1) _) }

theorem Schema.ordered_assemble {components entities : List DeclaredEntity}
    (filter : Filter) (hcomponents : (components.map DeclaredEntity.uid).Nodup)
    (hentities : (entities.map DeclaredEntity.uid).Nodup)
    (hfields : ∀ e ∈ components ++ entities, e.HasDistinctFields) :
    (assemble components entities filter).Ordered where
  entities := by
    rw [entities_assemble_map_uid]
    exact pairwise_lt_sortByKey ((filter_sublist.map DeclaredEntity.uid).nodup hentities)
  components := by
    rw [components_assemble_map_uid]
    exact pairwise_lt_sortByKey hcomponents
  fields := by
    intro e he
    rcases mem_append.1 he with he | he
    · obtain ⟨d, hd, rfl⟩ := mem_components_assemble.1 he
      exact d.ordered_assemble (hfields d (mem_append_left _ hd)) _ _ _
    · obtain ⟨d, hd, -, rfl⟩ := mem_entities_assemble.1 he
      exact d.ordered_assemble (hfields d (mem_append_right _ hd)) _ _ _

/-! ## The main statement -/

/-- **The order of declarations is irrelevant.** If the UIDs in each list
and the field names in each declaration are distinct, then every
rearrangement of the lists and of the fields assembles to the same schema,
for every filter. In that schema UIDs increase strictly, and so do the names
in each list of fields. -/
theorem declaration_order_irrelevant
    (components entities components' entities' : List DeclaredEntity)
    (filter : Filter) (hcomponents : (components.map DeclaredEntity.uid).Nodup)
    (hentities : (entities.map DeclaredEntity.uid).Nodup)
    (hfields : ∀ e ∈ components ++ entities, e.HasDistinctFields)
    (hcomponents' : DeclaredEntity.ListRearranged components components')
    (hentities' : DeclaredEntity.ListRearranged entities entities') :
    Schema.assemble components' entities' filter
      = Schema.assemble components entities filter
      ∧ (Schema.assemble components entities filter).Ordered := by
  rw [forall_mem_append] at hfields
  refine ⟨(Schema.assemble_eq_of_perm filter (hcomponents'.perm_sorted hfields.1)
    (hentities'.perm_sorted hfields.2)
    hcomponents hentities).symm, ?_⟩
  exact Schema.ordered_assemble filter hcomponents hentities (forall_mem_append.2 hfields)

/-- A component that is declared as an entity too, in a list with another
component. -/
def mixedComponents : List DeclaredEntity :=
  [{ uid := "shared.seo", kind := .component,
     fields := [{ name := "title", kind := "string" }] },
    { uid := "shared.card", kind := .component,
      fields :=
        [{ name := "link", kind := "string" }, { name := "image", kind := "media" }] }]

def mixedEntities : List DeclaredEntity :=
  [{ uid := "api::page.page", kind := .single,
      fields := [{ name := "seo", kind := "component", component := some "shared.seo" },
        { name := "cards", kind := "dynamiczone",
          components := ["shared.seo", "shared.card"] }] },
    { uid := "shared.seo", kind := .collection, fields := [] }]

/-- The fields of the first declaration in the other order. -/
def turnFields : List DeclaredEntity → List DeclaredEntity
  | [] => []
  | e :: es => { e with fields := e.fields.reverse } :: es

theorem listRearranged_turnFields_reverse (es : List DeclaredEntity) :
    DeclaredEntity.ListRearranged es (turnFields es.reverse) := by
  refine ⟨es.reverse, es.reverse_perm.symm, ?_⟩
  cases es.reverse with
  | nil => exact .nil
  | cons e rest =>
    refine .cons ⟨rfl, rfl, e.fields.reverse_perm.symm⟩ (forall₂_same.2 fun d _ => ?_)
    exact ⟨rfl, rfl, .refl _⟩

theorem declaration_order_irrelevant_mixed :
    (mixedComponents.map DeclaredEntity.uid).Nodup
      ∧ (mixedEntities.map DeclaredEntity.uid).Nodup
      ∧ (∀ e ∈ mixedComponents ++ mixedEntities, e.HasDistinctFields)
      ∧ turnFields mixedComponents.reverse ≠ mixedComponents
      ∧ Schema.assemble (turnFields mixedComponents.reverse)
        (turnFields mixedEntities.reverse) {}
        = Schema.assemble mixedComponents mixedEntities {}
      ∧ (Schema.assemble mixedComponents mixedEntities {}).Ordered := by
  have hcomponents : (mixedComponents.map DeclaredEntity.uid).Nodup := by decide
  have hentities : (mixedEntities.map DeclaredEntity.uid).Nodup := by decide
  have hfields : ∀ e ∈ mixedComponents ++ mixedEntities, e.HasDistinctFields := by
    unfold DeclaredEntity.HasDistinctFields
    decide
  exact ⟨hcomponents, hentities, hfields, by decide,
    declaration_order_irrelevant mixedComponents mixedEntities _ _
      {} hcomponents hentities hfields
      (listRearranged_turnFields_reverse mixedComponents)
      (listRearranged_turnFields_reverse mixedEntities)⟩

end TypedContent
