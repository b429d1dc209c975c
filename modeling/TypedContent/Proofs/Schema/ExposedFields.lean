import TypedContent.Proofs.Lists
import TypedContent.Proofs.Schema.References
import TypedContent.Proofs.Selections

/-!
# Which fields an entity exposes

The fields of an entity are in five buckets. A declared field is in the one
of its class, or in none: if it is excluded, if its kind is not known, or if
it leads to nothing that is declared. This is said here of the declarations
alone (`IsExposed`, and one relation for each bucket), without the known
UIDs that a schema is assembled with, and `assemble_exposes` says that it is
what comes out: nothing is lost, nothing comes twice, and nothing else is
there.

Each bucket is on its own, since it asks for one class
(`attribute?_eq_some_iff` and its companions). That all of them together
have the names of the exposed fields is because every field is in one of
them at most (`filterMap_bucketName?`).

A name can be the one of several fields. Then a private field does not keep
the name from being exposed by another one (`private_name_exposed`).
-/

namespace TypedContent

open List

/-! ## What fields lead to -/

section Declarations

variable {uid name : String}

variable (components entities : List DeclaredEntity) (filter : Filter)

/-- An entity of the schema has this UID. -/
def IsEntityUid (uid : String) : Prop :=
  filter.allows uid = true ∧ ∃ e ∈ entities, e.uid = uid

/-- A component of the schema has this UID, and no entity. -/
def IsComponentUid (uid : String) : Prop :=
  (∃ c ∈ components, c.uid = uid) ∧ ¬ IsEntityUid entities filter uid

instance (uid : String) : Decidable (IsEntityUid entities filter uid) :=
  inferInstanceAs (Decidable (_ ∧ _))

instance (uid : String) : Decidable (IsComponentUid components entities filter uid) :=
  inferInstanceAs (Decidable (_ ∧ _))

variable {components entities filter}

theorem mem_knownUids_entities :
    uid ∈ (Schema.knownUids components entities filter).entities
      ↔ IsEntityUid entities filter uid := by
  simp only [Schema.knownUids, List.mem_map, (sortByKey_perm _ _).mem_iff,
    mem_filter, IsEntityUid]
  constructor
  · rintro ⟨e, ⟨he, hallowed⟩, rfl⟩
    exact ⟨hallowed, e, he, rfl⟩
  · rintro ⟨hallowed, e, he, rfl⟩
    exact ⟨e, ⟨he, hallowed⟩, rfl⟩

theorem mem_knownUids_components :
    uid ∈ (Schema.knownUids components entities filter).components
      ↔ ∃ c ∈ components, c.uid = uid := by
  simp only [Schema.knownUids, List.mem_map, (sortByKey_perm _ _).mem_iff]

theorem entity?_eq_some_iff :
    (Schema.knownUids components entities filter).entity? uid = some name
      ↔ IsEntityUid entities filter uid ∧ name = Uid.typeName uid := by
  rw [Known.entity?, Option.ite_none_right_eq_some, contains_iff_mem,
    mem_knownUids_entities, Option.some.injEq, eq_comm]

theorem component?_eq_some_iff :
    (Schema.knownUids components entities filter).component? uid = some name
      ↔ IsComponentUid components entities filter uid ∧ name = Uid.typeName uid := by
  rw [Known.component?, Option.ite_none_right_eq_some, Bool.and_eq_true,
    contains_iff_mem, mem_knownUids_components, Bool.not_eq_true', Bool.eq_false_iff,
    Ne, contains_iff_mem, mem_knownUids_entities, Option.some.injEq, eq_comm,
    IsComponentUid]

/-! ## Which fields are exposed -/

namespace DeclaredField

variable (components entities filter)

/-- Private, managed by the server, about authorship or locale, or left out
by the filter. -/
def IsExcluded (f : DeclaredField) : Prop :=
  f.isPrivate = true ∨ f.name ∈ systemFields ∨ f.name ∈ privacyFields
    ∨ f.name ∈ filter.excludedFields

/-- A field of a known kind that leads to something, if it is one that leads
anywhere. -/
def LeadsOn (f : DeclaredField) : Prop :=
  (ScalarType.ofKind? f.kind f.enumValues).isSome = true
    ∨ f.kind = "media"
    ∨ f.kind = "component"
      ∧ (∃ uid ∈ f.component, IsComponentUid components entities filter uid)
    ∨ f.kind = "dynamiczone"
      ∧ (∃ uid ∈ f.components, IsComponentUid components entities filter uid)
    ∨ f.kind = "relation" ∧ (f.relation.bind Cardinality.ofName?).isSome = true
      ∧ ∃ uid ∈ f.target, IsEntityUid entities filter uid

/-- The field is in one of the buckets of its entity. -/
def IsExposed (f : DeclaredField) : Prop :=
  ¬ f.IsExcluded filter ∧ f.LeadsOn components entities filter

instance (f : DeclaredField) : Decidable (f.IsExcluded filter) :=
  inferInstanceAs (Decidable (_ ∨ _))

instance (f : DeclaredField) : Decidable (f.LeadsOn components entities filter) :=
  inferInstanceAs (Decidable (_ ∨ _))

instance (f : DeclaredField) : Decidable (f.IsExposed components entities filter) :=
  inferInstanceAs (Decidable (_ ∧ _))

/-! ## The entry of a field -/

structure HasAttribute (f : DeclaredField) (a : Attribute) : Prop where
  name : a.name = f.name
  type : ScalarType.ofKind? f.kind f.enumValues = some a.type
  isRequired : a.isRequired = f.isRequired

structure HasRelation (f : DeclaredField) (r : Relation) : Prop where
  kind : f.kind = "relation"
  name : r.name = f.name
  cardinality : f.relation.bind Cardinality.ofName? = some r.cardinality
  target : f.target = some r.target
  isEntity : IsEntityUid entities filter r.target
  targetType : r.targetType = Uid.typeName r.target
  isRequired : r.isRequired = f.isRequired

structure HasMedia (f : DeclaredField) (m : MediaField) : Prop where
  kind : f.kind = "media"
  name : m.name = f.name
  isMultiple : m.isMultiple = f.isMultiple
  isRequired : m.isRequired = f.isRequired

structure HasComponent (f : DeclaredField) (c : ComponentField) : Prop where
  kind : f.kind = "component"
  name : c.name = f.name
  component : f.component = some c.component
  isComponent : IsComponentUid components entities filter c.component
  componentType : c.componentType = Uid.typeName c.component
  isRepeatable : c.isRepeatable = f.isRepeatable
  isRequired : c.isRequired = f.isRequired

structure HasZone (f : DeclaredField) (z : ZoneField) : Prop where
  kind : f.kind = "dynamiczone"
  name : z.name = f.name
  variants :
    z.variants = (f.components.filter
      (IsComponentUid components entities filter)).map fun uid =>
    ⟨uid, Uid.typeName uid⟩
  nonempty : z.variants ≠ []
  isRequired : z.isRequired = f.isRequired

variable {components entities filter} {f : DeclaredField}

theorem excludes_iff : filter.excludes f = true ↔ f.IsExcluded filter := by
  simp [Filter.excludes, IsExcluded, or_assoc]

/-- The class of a field is said by its kind. -/
theorem fieldClass_eq_iff (f : DeclaredField) :
    (f.fieldClass = .relation ↔ f.kind = "relation")
      ∧ (f.fieldClass = .media ↔ f.kind = "media")
      ∧ (f.fieldClass = .component ↔ f.kind = "component")
        ∧ (f.fieldClass = .zone ↔ f.kind = "dynamiczone")
      ∧ ∀ type, f.fieldClass = .scalar type
        ↔ ScalarType.ofKind? f.kind f.enumValues = some type := by
  unfold fieldClass
  split
  · simp_all [ScalarType.ofKind?]
  · simp_all [ScalarType.ofKind?]
  · simp_all [ScalarType.ofKind?]
  · simp_all [ScalarType.ofKind?]
  · split <;> simp_all

theorem attribute?_eq_some_iff {a : Attribute} :
    f.attribute? = some a ↔ f.HasAttribute a := by
  obtain ⟨-, -, -, -, hclass⟩ := f.fieldClass_eq_iff
  unfold attribute?
  constructor
  · intro h
    split at h
    · rename_i type htype
      obtain rfl := Option.some.inj h
      exact ⟨rfl, (hclass type).1 htype, rfl⟩
    · cases h
  · rintro ⟨hname, htype, hrequired⟩
    rw [(hclass a.type).2 htype, ← hname, ← hrequired]

theorem relation?_eq_some_iff {r : Relation} :
    f.relation? (Schema.knownUids components entities filter) filter = some r
      ↔ f.HasRelation entities filter r := by
  obtain ⟨hclass, -⟩ := f.fieldClass_eq_iff
  unfold relation?
  constructor
  · intro h
    split at h
    · rename_i hrelation
      simp only [Option.bind_eq_bind, Option.bind_eq_some_iff] at h
      obtain ⟨kind, hkind, cardinality, hcardinality, target, htarget, h⟩ := h
      split at h
      · obtain ⟨type, htype, hr⟩ := Option.bind_eq_some_iff.1 h
        obtain rfl := Option.some.inj hr
        obtain ⟨hentity, rfl⟩ := entity?_eq_some_iff.1 htype
        exact ⟨hclass.1 hrelation, rfl,
          Option.bind_eq_some_iff.2 ⟨kind, hkind, hcardinality⟩, htarget, hentity, rfl,
          rfl⟩
      · cases h
    · cases h
  · rintro ⟨hkind, hname, hcardinality, htarget, hentity, htype, hrequired⟩
    obtain ⟨kind, hrelation, hcardinality⟩ := Option.bind_eq_some_iff.1 hcardinality
    simp only [hclass.2 hkind, hrelation, hcardinality, htarget, hentity.1,
      entity?_eq_some_iff.2 ⟨hentity, htype⟩, Option.bind_eq_bind, Option.bind_some,
      if_true, ← hname, ← hrequired]
    rfl

theorem media?_eq_some_iff {m : MediaField} : f.media? = some m ↔ f.HasMedia m := by
  obtain ⟨-, hclass, -⟩ := f.fieldClass_eq_iff
  unfold media?
  constructor
  · intro h
    split at h
    · rename_i hmedia
      obtain rfl := Option.some.inj h
      exact ⟨hclass.1 hmedia, rfl, rfl, rfl⟩
    · cases h
  · rintro ⟨hkind, hname, hmultiple, hrequired⟩
    rw [hclass.2 hkind, ← hname, ← hmultiple, ← hrequired]

theorem component?_eq_some_iff {c : ComponentField} :
    f.component? (Schema.knownUids components entities filter) = some c
      ↔ f.HasComponent components entities filter c := by
  obtain ⟨-, -, hclass, -⟩ := f.fieldClass_eq_iff
  unfold component?
  constructor
  · intro h
    split at h
    · rename_i hcomponent
      simp only [Option.bind_eq_bind, Option.bind_eq_some_iff] at h
      obtain ⟨uid, huid, type, htype, hc⟩ := h
      obtain rfl := Option.some.inj hc
      obtain ⟨hknown, rfl⟩ := TypedContent.component?_eq_some_iff.1 htype
      exact ⟨hclass.1 hcomponent, rfl, huid, hknown, rfl, rfl, rfl⟩
    · cases h
  · rintro ⟨hkind, hname, huid, hknown, htype, hrepeatable, hrequired⟩
    simp only [hclass.2 hkind, huid,
      TypedContent.component?_eq_some_iff.2 ⟨hknown, htype⟩, Option.bind_eq_bind,
      Option.bind_some, ← hname, ← hrepeatable, ← hrequired]
    rfl

theorem variants_eq :
    f.variants (Schema.knownUids components entities filter)
      = (f.components.filter (IsComponentUid components entities filter)).map fun uid =>
        ⟨uid, Uid.typeName uid⟩ := by
  rw [variants, ← filterMap_eq_map, filterMap_filter]
  refine filterMap_congr fun uid _ => ?_
  by_cases hknown : IsComponentUid components entities filter uid
  · simp [hknown, TypedContent.component?_eq_some_iff.2 ⟨hknown, rfl⟩]
  · have hnone : (Schema.knownUids components entities filter).component? uid = none := by
      rw [Option.eq_none_iff_forall_ne_some]
      exact fun name hname => hknown (TypedContent.component?_eq_some_iff.1 hname).1
    simp [hknown, hnone]

theorem zone?_eq_some_iff {z : ZoneField} :
    f.zone? (Schema.knownUids components entities filter) = some z
      ↔ f.HasZone components entities filter z := by
  obtain ⟨-, -, -, hclass, -⟩ := f.fieldClass_eq_iff
  unfold zone?
  constructor
  · intro h
    split at h
    · rename_i hzone
      split at h
      · cases h
      · rename_i hne
        obtain rfl := Option.some.inj h
        exact ⟨hclass.1 hzone, rfl, variants_eq, hne, rfl⟩
    · cases h
  · rintro ⟨hkind, hname, hvariants, hne, hrequired⟩
    rw [← variants_eq] at hvariants
    rw [hclass.2 hkind, ← hvariants, ← hname, ← hrequired]
    dsimp only
    split
    · rename_i hnil
      exact absurd hnil hne
    · rfl

/-! ## The names in the buckets -/

/-- The names that a field has in each of the buckets. -/
def bucketName? (known : Known) (filter : Filter) :
    List (DeclaredField → Option String) :=
  [fun f => f.attribute?.map Attribute.name,
    fun f => (f.relation? known filter).map Relation.name,
    fun f => f.media?.map MediaField.name,
      fun f => (f.component? known).map ComponentField.name,
    fun f => (f.zone? known).map ZoneField.name]

end DeclaredField

theorem map_eq_ite {α : Type} {taken? : Option α} {nameOf : α → String} {P : Prop}
    [Decidable P] (hname : ∀ entry, taken? = some entry → nameOf entry = name)
    (hP : (∃ entry, taken? = some entry) ↔ P) :
    taken?.map nameOf = if P then some name else none := by
  cases h : taken? with
  | some entry => rw [if_pos (hP.1 ⟨entry, h⟩), Option.map_some, hname entry h]
  | none =>
    have hnone : ¬ P := fun hp => by
      obtain ⟨entry, hentry⟩ := hP.2 hp
      rw [h] at hentry
      cases hentry
    rw [if_neg hnone, Option.map_none]

namespace DeclaredField

variable {f : DeclaredField}

theorem map_name_attribute? :
    f.attribute?.map Attribute.name
      = if (ScalarType.ofKind? f.kind f.enumValues).isSome = true then some f.name
        else none := by
  refine map_eq_ite (fun a ha => (attribute?_eq_some_iff.1 ha).name) ?_
  simp only [attribute?_eq_some_iff, Option.isSome_iff_exists]
  constructor
  · rintro ⟨a, ha⟩
    exact ⟨a.type, ha.type⟩
  · rintro ⟨type, htype⟩
    exact ⟨⟨f.name, type, f.isRequired⟩, rfl, htype, rfl⟩

theorem map_name_relation? :
    (f.relation? (Schema.knownUids components entities filter) filter).map Relation.name
      = if f.kind = "relation" ∧ (f.relation.bind Cardinality.ofName?).isSome = true
          ∧ ∃ uid ∈ f.target, IsEntityUid entities filter uid then some f.name
            else none := by
  refine map_eq_ite (fun r hr => (relation?_eq_some_iff.1 hr).name) ?_
  simp only [relation?_eq_some_iff, Option.isSome_iff_exists]
  constructor
  · rintro ⟨r, hr⟩
    exact ⟨hr.kind, ⟨r.cardinality, hr.cardinality⟩, r.target, hr.target, hr.isEntity⟩
  · rintro ⟨hkind, ⟨cardinality, hcardinality⟩, uid, htarget, hentity⟩
    exact ⟨⟨f.name, cardinality, uid, Uid.typeName uid, f.isRequired⟩, hkind, rfl,
      hcardinality, htarget, hentity, rfl,
      rfl⟩

theorem map_name_media? :
    f.media?.map MediaField.name = if f.kind = "media" then some f.name else none := by
  refine map_eq_ite (fun m hm => (media?_eq_some_iff.1 hm).name) ?_
  simp only [media?_eq_some_iff]
  constructor
  · rintro ⟨m, hm⟩
    exact hm.kind
  · intro hkind
    exact ⟨⟨f.name, f.isMultiple, f.isRequired⟩, hkind, rfl, rfl, rfl⟩

theorem map_name_component? :
    (f.component? (Schema.knownUids components entities filter)).map ComponentField.name
      = if f.kind = "component" ∧ ∃ uid ∈ f.component,
        IsComponentUid components entities filter uid then some f.name
        else none := by
  refine map_eq_ite (fun c hc => (component?_eq_some_iff.1 hc).name) ?_
  simp only [component?_eq_some_iff]
  constructor
  · rintro ⟨c, hc⟩
    exact ⟨hc.kind, c.component, hc.component, hc.isComponent⟩
  · rintro ⟨hkind, uid, huid, hcomponent⟩
    exact ⟨⟨f.name, uid, Uid.typeName uid, f.isRepeatable, f.isRequired⟩, hkind, rfl,
      huid, hcomponent, rfl, rfl, rfl⟩

theorem map_name_zone? :
    (f.zone? (Schema.knownUids components entities filter)).map ZoneField.name
      = if f.kind = "dynamiczone" ∧ ∃ uid ∈ f.components,
        IsComponentUid components entities filter uid then some f.name
        else none := by
  refine map_eq_ite (fun z hz => (zone?_eq_some_iff.1 hz).name) ?_
  simp only [zone?_eq_some_iff]
  constructor
  · rintro ⟨z, hz⟩
    refine ⟨hz.kind, ?_⟩
    have hne := hz.nonempty
    rw [hz.variants, Ne, map_eq_nil_iff, filter_eq_nil_iff] at hne
    simpa using hne
  · rintro ⟨hkind, uid, huid, hcomponent⟩
    refine ⟨⟨f.name, _, f.isRequired⟩, hkind, rfl, rfl, ?_, rfl⟩
    rw [Ne, map_eq_nil_iff, filter_eq_nil_iff]
    exact fun hnone => hnone uid huid (by simpa using hcomponent)

/-- The kinds of plain values are not those that lead somewhere. -/
theorem kind_ne_of_isSome_ofKind?
    (h : (ScalarType.ofKind? f.kind f.enumValues).isSome = true) :
    f.kind ≠ "relation" ∧ f.kind ≠ "media" ∧ f.kind ≠ "component"
      ∧ f.kind ≠ "dynamiczone" := by
  obtain ⟨hrelation, hmedia, hcomponent, hzone, hscalar⟩ := f.fieldClass_eq_iff
  obtain ⟨type, htype⟩ := Option.isSome_iff_exists.1 h
  simp [← hrelation, ← hmedia, ← hcomponent, ← hzone, (hscalar type).2 htype]

/-- A field has its name in one bucket at most, and in one exactly if it
leads on. -/
theorem filterMap_bucketName? (f : DeclaredField) :
    (bucketName? (Schema.knownUids components entities filter) filter).filterMap (· f)
      = (if f.LeadsOn components entities filter then some f.name else none).toList := by
  simp only [bucketName?, filterMap_eq_flatMap_toList, flatMap_cons, flatMap_nil,
    map_name_attribute?, map_name_relation?, map_name_media?, map_name_component?,
    map_name_zone?, LeadsOn]
  by_cases hscalar : (ScalarType.ofKind? f.kind f.enumValues).isSome = true
  · obtain ⟨hrelation, hmedia, hcomponent, hzone⟩ := kind_ne_of_isSome_ofKind? hscalar
    simp [hscalar, hrelation, hmedia, hcomponent, hzone]
  by_cases hmedia : f.kind = "media"
  · simp [hmedia, ScalarType.ofKind?]
  by_cases hcomponent : f.kind = "component"
  · simp [hcomponent, ScalarType.ofKind?]
  by_cases hzone : f.kind = "dynamiczone"
  · simp [hzone, ScalarType.ofKind?]
  · simp [hscalar, hmedia, hcomponent, hzone]

end DeclaredField

/-- The names of the fields in the five buckets. -/
def Entity.bucketNames (e : Entity) : List String :=
  e.attributes.map Attribute.name ++ e.relations.map Relation.name
    ++ e.media.map MediaField.name
    ++ e.components.map ComponentField.name ++ e.zones.map ZoneField.name

/-- What each of several selections takes from a list, where together they
take one thing from an element at most. -/
theorem perm_flatMap_filterMap {α β : Type} {selections : List (α → Option β)}
    {f : α → Option β} (h : ∀ x, selections.filterMap (· x) = (f x).toList)
    (xs : List α) :
    (selections.flatMap fun selection => xs.filterMap selection).Perm
      (xs.filterMap f) := by
  induction xs with
  | nil => simp
  | cons x xs ih =>
    have hcons :
        ∀ g : α → Option β, (x :: xs).filterMap g = (g x).toList ++ xs.filterMap g := by
      intro g
      rw [filterMap_eq_flatMap_toList, flatMap_cons, ← filterMap_eq_flatMap_toList]
    simp only [hcons]
    refine (flatMap_append_perm selections _ _).symm.trans ?_
    rw [← filterMap_eq_flatMap_toList, h]
    exact ih.append_left _

namespace DeclaredEntity

variable {d : DeclaredEntity} {kind : EntityKind}

theorem bucketNames_assemble (d : DeclaredEntity) (known : Known) (filter : Filter)
    (kind : EntityKind) :
    (d.assemble known filter kind).bucketNames
      = (DeclaredField.bucketName? known filter).flatMap fun name? =>
        (d.keptFields filter).filterMap name? := by
  simp [Entity.bucketNames, assemble, DeclaredField.bucketName?, map_filterMap]

theorem filter_keptFields :
    ((d.keptFields filter).filter
      (DeclaredField.LeadsOn components entities filter ·)).Perm
      (d.fields.filter (DeclaredField.IsExposed components entities filter ·)) := by
  rw [keptFields, List.filter_filter]
  refine ((sortByKey_perm _ _).filter _).trans
    (List.Perm.of_eq (filter_congr fun f _ => ?_))
  simp [DeclaredField.IsExposed, ← DeclaredField.excludes_iff, Bool.and_comm]

theorem perm_bucketNames :
    (d.assemble (Schema.knownUids components entities filter) filter
      kind).bucketNames.Perm
      ((d.fields.filter (DeclaredField.IsExposed components entities filter ·)).map
        DeclaredField.name) := by
  rw [bucketNames_assemble]
  refine (perm_flatMap_filterMap DeclaredField.filterMap_bucketName? _).trans ?_
  refine List.Perm.trans (List.Perm.of_eq ?_) (filter_keptFields.map DeclaredField.name)
  rw [← filterMap_eq_map, filterMap_filter]
  simp

end DeclaredEntity

/-! ## What a schema exposes -/

variable (components entities filter)

/-- Each bucket has the entries of the fields of its class that are not
excluded, in the order of the fields. -/
structure Entity.IsFilledFrom (fields : List DeclaredField) (e : Entity) : Prop where
  attributes :
    AllGive (fun f a => ¬ f.IsExcluded filter ∧ f.HasAttribute a) fields e.attributes
  relations :
    AllGive (fun f r => ¬ f.IsExcluded filter ∧ f.HasRelation entities filter r)
      fields e.relations
  media : AllGive (fun f m => ¬ f.IsExcluded filter ∧ f.HasMedia m) fields e.media
  zones :
    AllGive (fun f z => ¬ f.IsExcluded filter ∧ f.HasZone components entities filter z)
      fields e.zones
  components :
    AllGive (fun f c => ¬ f.IsExcluded filter
      ∧ f.HasComponent components entities filter c) fields
    e.components

/-- The entity exposes what its declaration says, and nothing else. -/
structure DeclaredEntity.Exposes (d : DeclaredEntity) (e : Entity) : Prop where
  uid : e.uid = d.uid
  /-- The names in the buckets are those of the exposed fields, each as
  often as it is there. -/
  names :
    e.bucketNames.Perm ((d.fields.filter (·.IsExposed components entities filter)).map
      DeclaredField.name)
  /-- The entries are those of the declared fields in the order of their
  names. -/
  buckets : ∃ fields : List DeclaredField,
    fields.Perm d.fields ∧ fields.Pairwise (fun f g => f.name ≤ g.name)
    ∧ e.IsFilledFrom components entities filter fields
  /-- No name is one that is excluded, and each is the name of a field that
  is not private. -/
  hidden : ∀ name ∈ e.bucketNames,
    name ∉ systemFields ∧ name ∉ privacyFields ∧ name ∉ filter.excludedFields
    ∧ ∃ f ∈ d.fields, f.name = name ∧ f.isPrivate = false

variable {components entities filter}

theorem DeclaredEntity.isFilledFrom_assemble (d : DeclaredEntity) (kind : EntityKind) :
    (d.assemble (Schema.knownUids components entities filter) filter kind).IsFilledFrom
      components entities filter
      (sortByKey DeclaredField.name d.fields) := by
  have hkept : ∀ f : DeclaredField, ¬ f.IsExcluded filter
      ↔ (!filter.excludes f) = true := by
    intro f
    rw [← DeclaredField.excludes_iff, Bool.not_eq_true, Bool.not_eq_true']
  refine ⟨?_, ?_, ?_, ?_, ?_⟩ <;> simp only [hkept, assemble, keptFields]
  · exact allGive_filterMap_filter (fun _ _ => DeclaredField.attribute?_eq_some_iff) _
  · exact allGive_filterMap_filter (fun _ _ => DeclaredField.relation?_eq_some_iff) _
  · exact allGive_filterMap_filter (fun _ _ => DeclaredField.media?_eq_some_iff) _
  · exact allGive_filterMap_filter (fun _ _ => DeclaredField.zone?_eq_some_iff) _
  · exact allGive_filterMap_filter (fun _ _ => DeclaredField.component?_eq_some_iff) _

theorem DeclaredEntity.exposes_assemble (d : DeclaredEntity) (kind : EntityKind) :
    d.Exposes components entities filter
      (d.assemble (Schema.knownUids components entities filter) filter kind) where
  uid := rfl
  names := perm_bucketNames
  buckets := ⟨_, sortByKey_perm _ _, pairwise_sortByKey _ _, d.isFilledFrom_assemble kind⟩
  hidden := by
    intro name hname
    obtain ⟨f, hf, rfl⟩ := List.mem_map.1 (perm_bucketNames.mem_iff.1 hname)
    obtain ⟨hmem, hexposed⟩ := mem_filter.1 hf
    have hexcluded : ¬ f.IsExcluded filter := (of_decide_eq_true hexposed).1
    simp only [DeclaredField.IsExcluded, not_or, Bool.not_eq_true] at hexcluded
    obtain ⟨hprivate, hsystem, hprivacy, hfilter⟩ := hexcluded
    exact ⟨hsystem, hprivacy, hfilter, f, hmem, rfl, hprivate⟩

end Declarations

/-- **Fields are neither lost, duplicated nor leaked.** Whatever is
declared, the entities of a schema are the declared ones that the filter
allows, the components are all that are declared, both in the order of their
UIDs, and each exposes its own fields: the names in its buckets are those of
the fields which are not excluded and which lead to something declared, each
in the bucket of its class, in the order of names and as it is declared. -/
theorem assemble_exposes (components entities : List DeclaredEntity) (filter : Filter) :
    (∃ kept : List DeclaredEntity, kept.Perm
      (entities.filter fun d => filter.allows d.uid)
      ∧ kept.Pairwise (fun d d' => d.uid ≤ d'.uid)
      ∧ List.Forall₂ (DeclaredEntity.Exposes components entities filter) kept
        (Schema.assemble components entities filter).entities)
    ∧ ∃ kept : List DeclaredEntity,
      kept.Perm components ∧ kept.Pairwise (fun d d' => d.uid ≤ d'.uid)
      ∧ List.Forall₂ (DeclaredEntity.Exposes components entities filter) kept
        (Schema.assemble components entities filter).components := by
  refine ⟨⟨_, sortByKey_perm _ _, pairwise_sortByKey _ _, ?_⟩, _, sortByKey_perm _ _,
    pairwise_sortByKey _ _, ?_⟩
  · exact forall₂_map_right_iff.2 (forall₂_same.2 fun d _ => d.exposes_assemble d.kind)
  · exact forall₂_map_right_iff.2
      (forall₂_same.2 fun d _ => d.exposes_assemble .component)

/-- An entity with two fields of one name, the first of which is private. -/
def sharedName : DeclaredEntity :=
  { uid := "api::page.page"
    kind := .collection
    fields :=
      [{ name := "title", kind := "string", isPrivate := true },
        { name := "title", kind := "string" }] }

/-- The name of a private field is exposed by another field. -/
theorem private_name_exposed :
    (∃ f ∈ sharedName.fields, f.isPrivate = true ∧ f.name = "title")
      ∧ ∃ e ∈ (Schema.assemble [] [sharedName] {}).entities, "title" ∈ e.bucketNames := by
  have hallowed : Filter.allows {} sharedName.uid = true := by decide
  refine ⟨by decide, _, Schema.mem_entities_assemble.2 ⟨sharedName,
    mem_singleton_self _, hallowed, rfl⟩, ?_⟩
  exact DeclaredEntity.perm_bucketNames.mem_iff.2 (by decide)

end TypedContent
