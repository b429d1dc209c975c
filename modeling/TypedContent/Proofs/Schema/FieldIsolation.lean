import TypedContent.Proofs.Lists
import TypedContent.Proofs.Maps
import TypedContent.Proofs.Schema.References
import TypedContent.Schema.Document

/-!
# What one attribute can change

Two documents that differ in the value of one attribute, whether it is well
formed, malformed or missing, have schemas that differ in the entries of
that field only (`schema_agreesBut`): another field or another entity does
not notice, wherever it leads to.

An attribute does not decide on what is known: that depends on the UIDs and
kinds of the definitions (`knownUids_congr`). Nor does it move anything: a
document lists its entities and fields in order already, so sorting does
nothing (`pairwise_filterMap_entries`). What is left is that each bucket
takes its entries field by field (`filter_filterMap_keptFields`).
-/

namespace TypedContent

open List

/-! ## Documents that differ in one attribute -/

/-- The definitions differ in the value of one attribute at most. -/
structure EntityDefinition.AgreesBut (name : String)
    (d d' : EntityDefinition) : Prop where
  kind : d.kind = d'.kind
  attributes :
    ∀ other, other ≠ name → d.attributes.find? other = d'.attributes.find? other

/-- The maps differ in the value of one attribute of the definition of a UID
at most. -/
structure DefinitionsAgreeBut (uid name : String)
    (m m' : Keyed EntityDefinition) : Prop where
  others : ∀ other, other ≠ uid → m.find? other = m'.find? other
  own : ∃ d d', m.find? uid = some d ∧ m'.find? uid = some d' ∧ d.AgreesBut name d'

/-- The two parts of a document, and of its schema. -/
inductive SchemaPart where
  | entities
  | components
deriving DecidableEq, Repr

def SchemaDocument.definitions (doc : SchemaDocument) :
    SchemaPart → Keyed EntityDefinition
  | .entities => doc.entities
  | .components => doc.components

def Schema.listed (s : Schema) : SchemaPart → List Entity
  | .entities => s.entities
  | .components => s.components

/-- The documents differ in the value of one attribute of one entity, or of
one component, at most. -/
structure SchemaDocument.AgreesBut (part : SchemaPart) (uid name : String)
    (doc doc' : SchemaDocument) : Prop where
  others : ∀ other, other ≠ part → doc.definitions other = doc'.definitions other
  own : DefinitionsAgreeBut uid name (doc.definitions part) (doc'.definitions part)

/-- The entities differ in the entries of one name at most. -/
structure Entity.AgreesBut (name : String) (e e' : Entity) : Prop where
  uid : e.uid = e'.uid
  typeName : e.typeName = e'.typeName
  kind : e.kind = e'.kind
  plugin : e.plugin = e'.plugin
  attributes : e.attributes.filter (·.name ≠ name) = e'.attributes.filter (·.name ≠ name)
  relations : e.relations.filter (·.name ≠ name) = e'.relations.filter (·.name ≠ name)
  media : e.media.filter (·.name ≠ name) = e'.media.filter (·.name ≠ name)
  components : e.components.filter (·.name ≠ name) = e'.components.filter (·.name ≠ name)
  zones : e.zones.filter (·.name ≠ name) = e'.zones.filter (·.name ≠ name)

/-- The schemas list the same in the same order, but for the entries of one
name of one entity, or of one component. -/
structure Schema.AgreesBut (part : SchemaPart) (uid name : String)
    (s s' : Schema) : Prop where
  others : ∀ other, other ≠ part → s.listed other = s'.listed other
  own : List.Forall₂ (fun e e' => e = e' ∨ e.uid = uid ∧ e.AgreesBut name e')
    (s.listed part) (s'.listed part)

/-! ## What documents declare -/

namespace SchemaDocument

def declaredComponents (doc : SchemaDocument) : List DeclaredEntity :=
  doc.components.entries.map fun (uid, definition) => definition.declare uid .component

def declaredEntities (doc : SchemaDocument) : List DeclaredEntity :=
  doc.entities.entries.filterMap fun (uid, definition) =>
    definition.entityKind?.map fun kind => definition.declare uid kind

theorem schema_eq (doc : SchemaDocument) (filter : Filter) :
    doc.schema filter
      = Schema.assemble doc.declaredComponents doc.declaredEntities filter :=
  rfl

end SchemaDocument

theorem DeclaredField.name_of_ofAttribute? {name : String} {value : Json.Value}
    {f : DeclaredField} (h : ofAttribute? name value = some f) :
    f.name = name := by
  unfold ofAttribute? at h
  obtain ⟨fields, -, h⟩ := Option.bind_eq_some_iff.1 h
  split at h
  · iterate 10 obtain ⟨_, -, h⟩ := Option.bind_eq_some_iff.1 h
    rw [← Option.some.inj h]
  · cases h

/-- What is taken from the entries of a map is in the order of the keys. -/
theorem pairwise_filterMap_entries {α β : Type} {f : String × α → Option β}
    {key : β → String} (h : ∀ e b, f e = some b → key b = e.1) (m : Keyed α) :
    (m.entries.filterMap f).Pairwise fun a b => key a ≤ key b := by
  refine pairwise_filterMap.2 (m.increasing.imp fun {e e'} hlt b hb b' hb' => ?_)
  rw [h e b hb, h e' b' hb']
  exact String.not_lt.1 (String.lt_asymm hlt)

/-- Leaving a name out before or after entries are taken is the same if
entries keep their names. -/
theorem filter_filterMap_ne {α β : Type} {f : α → Option β} {key : α → String}
    {key' : β → String} (h : ∀ x b, f x = some b → key' b = key x) (name : String)
    (xs : List α) :
    (xs.filterMap f).filter (key' · ≠ name) = (xs.filter (key · ≠ name)).filterMap f := by
  rw [filter_filterMap, filterMap_filter]
  refine filterMap_congr fun x _ => ?_
  cases hx : f x with
  | none => simp
  | some b => simp [Option.filter, h x b hx]

/-- The declarations differ in the fields of one name at most, and their
fields are in order. -/
structure DeclaredEntity.AgreesBut (name : String) (d d' : DeclaredEntity) : Prop where
  uid : d.uid = d'.uid
  kind : d.kind = d'.kind
  fields : d.fields.filter (·.name ≠ name) = d'.fields.filter (·.name ≠ name)
  ordered : d.fields.Pairwise fun f g => f.name ≤ g.name
  ordered' : d'.fields.Pairwise fun f g => f.name ≤ g.name

theorem EntityDefinition.AgreesBut.declare {name : String} {d d' : EntityDefinition}
    (h : d.AgreesBut name d') (uid : String) (kind : EntityKind) :
    (d.declare uid kind).AgreesBut name (d'.declare uid kind) := by
  have hname : ∀ (e : String × Json.Value) (f : DeclaredField),
      DeclaredField.ofAttribute? e.1 e.2 = some f →
      f.name = e.1 := fun e f => DeclaredField.name_of_ofAttribute?
  refine ⟨rfl, rfl, ?_, pairwise_filterMap_entries hname _,
    pairwise_filterMap_entries hname _⟩
  simp only [EntityDefinition.declare]
  rw [filter_filterMap_ne hname, filter_filterMap_ne hname,
    Keyed.filter_entries_eq h.attributes]

/-! ## What is assembled -/

namespace DeclaredEntity

variable {uid name : String} {d d' : DeclaredEntity}

/-- The entries that a bucket takes from the fields, but for one name. -/
theorem AgreesBut.filter_filterMap_keptFields (h : d.AgreesBut name d') {β : Type}
    {taken? : DeclaredField → Option β} {nameOf : β → String}
    (hname : ∀ f b, taken? f = some b → nameOf b = f.name) (filter : Filter) :
    ((d.keptFields filter).filterMap taken?).filter (nameOf · ≠ name)
      = ((d'.keptFields filter).filterMap taken?).filter (nameOf · ≠ name) := by
  have hkept : ∀ {e : DeclaredEntity}, (e.fields.Pairwise fun f g => f.name ≤ g.name) →
      (e.keptFields filter).filter (·.name ≠ name)
        = (e.fields.filter (·.name ≠ name)).filter (!filter.excludes ·) := by
    intro e hordered
    rw [keptFields, sortByKey_of_sorted hordered, filter_filter, filter_filter]
    simp only [Bool.and_comm]
  rw [filter_filterMap_ne hname, filter_filterMap_ne hname, hkept h.ordered,
    hkept h.ordered', h.fields]

theorem AgreesBut.assemble (h : d.AgreesBut name d') (known : Known) (filter : Filter)
    (kind : EntityKind) :
    (d.assemble known filter kind).AgreesBut name (d'.assemble known filter kind) where
  uid := h.uid
  typeName := congrArg Uid.typeName h.uid
  kind := rfl
  plugin := congrArg Uid.plugin? h.uid
  attributes :=
    h.filter_filterMap_keptFields (fun _ _ => DeclaredField.attribute?_eq_some) filter
  relations := h.filter_filterMap_keptFields
    (fun _ _ hr => (DeclaredField.relation?_eq_some hr).1) filter
  media := h.filter_filterMap_keptFields (fun _ _ => DeclaredField.media?_eq_some) filter
  components := h.filter_filterMap_keptFields
    (fun _ _ hc => (DeclaredField.component?_eq_some hc).1) filter
  zones := h.filter_filterMap_keptFields
    (fun _ _ hz => (DeclaredField.zone?_eq_some hz).2.1) filter

/-- The declarations are the same, or both of the UID and the same but for
the fields of one name. -/
def AgreesAt (uid name : String) (d d' : DeclaredEntity) : Prop :=
  d = d' ∨ d.uid = uid ∧ d.AgreesBut name d'

theorem AgreesAt.uid_eq (h : d.AgreesAt uid name d') : d.uid = d'.uid := by
  rcases h with rfl | ⟨-, h⟩
  · rfl
  · exact h.uid

theorem AgreesAt.kind_eq (h : d.AgreesAt uid name d') : d.kind = d'.kind := by
  rcases h with rfl | ⟨-, h⟩
  · rfl
  · exact h.kind

theorem AgreesAt.assemble (h : d.AgreesAt uid name d') (known : Known)
    (filter : Filter) (kind : EntityKind) :
    d.assemble known filter kind = d'.assemble known filter kind
      ∨ d.uid = uid ∧ (d.assemble known filter kind).AgreesBut name
        (d'.assemble known filter kind) := by
  rcases h with rfl | ⟨huid, h⟩
  · exact .inl rfl
  · exact .inr ⟨huid, h.assemble known filter kind⟩

theorem map_uid_eq {ds ds' : List DeclaredEntity}
    (h : List.Forall₂ (AgreesAt uid name) ds ds') :
    ds.map DeclaredEntity.uid = ds'.map DeclaredEntity.uid := by
  rw [← forall₂_eq_eq_eq, forall₂_map_left_iff, forall₂_map_right_iff]
  exact h.imp fun _ _ => AgreesAt.uid_eq

end DeclaredEntity

/-- What is known depends on UIDs only. -/
theorem Schema.knownUids_congr
    {components components' entities entities' : List DeclaredEntity}
    (hcomponents : components.map DeclaredEntity.uid
      = components'.map DeclaredEntity.uid)
    (hentities : entities.map DeclaredEntity.uid = entities'.map DeclaredEntity.uid)
    (filter : Filter) :
    knownUids components entities filter = knownUids components' entities' filter := by
  have hknown : ∀ components entities : List DeclaredEntity,
      knownUids components entities filter
      = ⟨sortByKey id ((entities.map DeclaredEntity.uid).filter filter.allows),
          sortByKey id (components.map DeclaredEntity.uid)⟩ := by
    intro components entities
    have hsorted : ∀ ds : List DeclaredEntity,
        sortByKey id (ds.map DeclaredEntity.uid)
          = (sortByKey DeclaredEntity.uid ds).map DeclaredEntity.uid :=
      sortByKey_map fun _ => rfl
    rw [knownUids, filter_map, hsorted, hsorted]
    rfl
  rw [hknown, hknown, hcomponents, hentities]

/-! ## Two documents -/

/-- The entries of the two maps, one by one. -/
theorem DefinitionsAgreeBut.forall₂_entries {uid name : String}
    {m m' : Keyed EntityDefinition} (h : DefinitionsAgreeBut uid name m m') :
    List.Forall₂ (fun e e' => e.1 = e'.1
      ∧ (e.2 = e'.2 ∨ e.1 = uid ∧ e.2.AgreesBut name e'.2)) m.entries
      m'.entries := by
  refine forall₂_of_lookup (R := fun key d d' => d = d' ∨ key = uid
    ∧ d.AgreesBut name d') m.increasing m'.increasing
    fun key => ?_
  rw [← Keyed.find?, ← Keyed.find?]
  by_cases hkey : key = uid
  · obtain ⟨d, d', hd, hd', hagrees⟩ := h.own
    rw [hkey, hd, hd']
    exact .some (.inr ⟨rfl, hagrees⟩)
  · rw [h.others key hkey]
    cases m'.find? key with
    | none => exact .none
    | some d => exact .some (.inl rfl)

namespace SchemaDocument

variable {doc doc' : SchemaDocument} {uid name : String}

theorem declaredEntities_sorted (doc : SchemaDocument) :
    doc.declaredEntities.Pairwise fun d d' => d.uid ≤ d'.uid := by
  refine pairwise_filterMap_entries (fun e d h => ?_) doc.entities
  obtain ⟨kind, -, rfl⟩ := Option.map_eq_some_iff.1 h
  rfl

theorem declaredComponents_sorted (doc : SchemaDocument) :
    doc.declaredComponents.Pairwise fun d d' => d.uid ≤ d'.uid := by
  rw [declaredComponents, ← filterMap_eq_map]
  refine pairwise_filterMap_entries (fun e d h => ?_) doc.components
  rw [← Option.some.inj h]
  rfl

theorem entities_schema (doc : SchemaDocument) (filter : Filter) :
    (doc.schema filter).entities
      = (doc.declaredEntities.filter fun d => filter.allows d.uid).map fun d =>
      d.assemble (Schema.knownUids doc.declaredComponents doc.declaredEntities filter)
        filter d.kind := by
  have hsorted := sortByKey_of_sorted
    (doc.declaredEntities_sorted.filter fun d => filter.allows d.uid)
  rw [schema_eq, Schema.assemble, Schema.knownUids, hsorted]

theorem components_schema (doc : SchemaDocument) (filter : Filter) :
    (doc.schema filter).components = doc.declaredComponents.map fun d =>
      d.assemble (Schema.knownUids doc.declaredComponents doc.declaredEntities filter)
        filter .component := by
  have hsorted := sortByKey_of_sorted doc.declaredComponents_sorted
  rw [schema_eq, Schema.assemble, Schema.knownUids, hsorted]

variable {filter : Filter}

/-- Components that agree, seen by the same entities, are assembled
alike. -/
theorem forall₂_components_schema
    (hcomponents : List.Forall₂ (DeclaredEntity.AgreesAt uid name)
      doc.declaredComponents doc'.declaredComponents)
    (hentities : doc.declaredEntities = doc'.declaredEntities) :
    List.Forall₂ (fun e e' => e = e' ∨ e.uid = uid ∧ e.AgreesBut name e')
      (doc.schema filter).components
      (doc'.schema filter).components := by
  rw [components_schema, components_schema, hentities,
    Schema.knownUids_congr (DeclaredEntity.map_uid_eq hcomponents) rfl,
    forall₂_map_left_iff, forall₂_map_right_iff]
  exact hcomponents.imp fun d d' h => h.assemble _ filter .component

theorem forall₂_entities_schema
    (hentities : List.Forall₂ (DeclaredEntity.AgreesAt uid name) doc.declaredEntities
      doc'.declaredEntities)
    (hcomponents : doc.declaredComponents = doc'.declaredComponents) :
    List.Forall₂ (fun e e' => e = e' ∨ e.uid = uid ∧ e.AgreesBut name e')
      (doc.schema filter).entities
      (doc'.schema filter).entities := by
  rw [entities_schema, entities_schema, hcomponents,
    Schema.knownUids_congr rfl (DeclaredEntity.map_uid_eq hentities),
    forall₂_map_left_iff, forall₂_map_right_iff]
  have hkept : List.Forall₂ (DeclaredEntity.AgreesAt uid name)
      (doc.declaredEntities.filter fun d => filter.allows d.uid)
      (doc'.declaredEntities.filter fun d => filter.allows d.uid) :=
    rel_filter (fun d d' h => by simp only [h.uid_eq]) hentities
  refine hkept.imp fun d d' h => ?_
  rw [h.kind_eq]
  exact h.assemble _ filter d'.kind

theorem forall₂_declaredComponents
    (h : DefinitionsAgreeBut uid name doc.components doc'.components) :
    List.Forall₂ (DeclaredEntity.AgreesAt uid name) doc.declaredComponents
      doc'.declaredComponents := by
  rw [declaredComponents, declaredComponents, forall₂_map_left_iff, forall₂_map_right_iff]
  refine h.forall₂_entries.imp ?_
  rintro ⟨uid', d⟩ ⟨_, d'⟩ ⟨rfl, rfl | ⟨rfl, hagrees⟩⟩
  · exact .inl rfl
  · exact .inr ⟨rfl, hagrees.declare uid' .component⟩

theorem forall₂_declaredEntities
    (h : DefinitionsAgreeBut uid name doc.entities doc'.entities) :
    List.Forall₂ (DeclaredEntity.AgreesAt uid name) doc.declaredEntities
      doc'.declaredEntities := by
  refine rel_filterMap ?_ h.forall₂_entries
  rintro ⟨uid', d⟩ ⟨_, d'⟩ ⟨rfl, hdefinition⟩
  have hkind : d.entityKind? = d'.entityKind? := by
    rcases hdefinition with rfl | ⟨-, hagrees⟩
    · rfl
    · unfold EntityDefinition.entityKind?
      rw [hagrees.kind]
  dsimp only at hkind ⊢
  rw [hkind]
  cases d'.entityKind? with
  | none => exact .none
  | some kind =>
    refine .some ?_
    rcases hdefinition with rfl | ⟨rfl, hagrees⟩
    · exact .inl rfl
    · exact .inr ⟨rfl, hagrees.declare uid' kind⟩

/-- **One attribute affects its own field only.** For every filter and every
two documents that differ in the value of one attribute of one entity or
component at most, be it well formed, malformed or missing, the schemas list
the same in the same order, but for the entries of that name of that entity
or component. -/
theorem schema_agreesBut {part : SchemaPart} (h : doc.AgreesBut part uid name doc')
    (filter : Filter) :
    (doc.schema filter).AgreesBut part uid name (doc'.schema filter) := by
  cases part with
  | entities =>
    have hsame : doc.components = doc'.components := h.others .components (by decide)
    have hcomponents : doc.declaredComponents = doc'.declaredComponents := by
      rw [declaredComponents, declaredComponents, hsame]
    have hentities := forall₂_declaredEntities h.own
    refine ⟨fun other hother => ?_, forall₂_entities_schema hentities hcomponents⟩
    cases other with
    | entities => exact absurd rfl hother
    | components =>
      show (doc.schema filter).components = (doc'.schema filter).components
      rw [components_schema, components_schema, hcomponents,
        Schema.knownUids_congr rfl (DeclaredEntity.map_uid_eq hentities)]
  | components =>
    have hsame : doc.entities = doc'.entities := h.others .entities (by decide)
    have hentities : doc.declaredEntities = doc'.declaredEntities := by
      rw [declaredEntities, declaredEntities, hsame]
    have hcomponents := forall₂_declaredComponents h.own
    refine ⟨fun other hother => ?_, forall₂_components_schema hcomponents hentities⟩
    cases other with
    | components => exact absurd rfl hother
    | entities =>
      show (doc.schema filter).entities = (doc'.schema filter).entities
      rw [entities_schema, entities_schema, hentities,
        Schema.knownUids_congr (DeclaredEntity.map_uid_eq hcomponents) rfl]

/-- An author and a page that leads to it and has a title. -/
def authored (title : Json.Value) : SchemaDocument where
  entities := Keyed.empty
    |>.insert "api::author.author"
      { attributes := Keyed.empty.insert "name" (.object [("type", .string "string")]) }
    |>.insert "api::page.page"
      { attributes := Keyed.empty
          |>.insert "author"
            (.object [("type", .string "relation"), ("relation", .string "manyToOne"),
            ("target", .string "api::author.author")])
          |>.insert "title" title }

/-- A title that is an empty list instead of an attribute costs the page its
title and nothing else. -/
theorem schema_agreesBut_malformed :
    (authored (.object [("type", .string "string")])).AgreesBut .entities
      "api::page.page" "title"
        (authored (.array []))
      ∧ ((authored (.object [("type", .string "string")])).schema {}).AgreesBut
        .entities "api::page.page" "title"
        ((authored (.array [])).schema {}) := by
  have hagrees : (authored (.object [("type", .string "string")])).AgreesBut .entities
      "api::page.page" "title"
      (authored (.array [])) := by
    refine ⟨fun other hother => ?_, fun other hother => ?_, ?_⟩
    · cases other with
      | entities => exact absurd rfl hother
      | components => rfl
    · simp only [definitions, authored, Keyed.find?_insert, if_neg hother]
    · simp only [definitions, authored, Keyed.find?_insert, if_true]
      refine ⟨_, _, rfl, rfl, rfl, fun other hother => ?_⟩
      simp only [Keyed.find?_insert, if_neg hother]
  exact ⟨hagrees, schema_agreesBut hagrees {}⟩

end SchemaDocument

end TypedContent
