import TypedContent.Schema.Assemble

/-!
# References of an assembled schema

Every generated name stands on a reference that the schema resolved: the
target of a relation, the component of a field, the variants of a dynamic
zone. This file shows that assembling a schema leaves no reference dangling,
whatever is declared: UIDs may be repeated, declared as entity and as
component at once, or filtered away.

The argument goes through the known UIDs. `Known.entity?` and
`Known.component?` answer for exactly the UIDs of the two lists of the
schema (`hasEntity_of_entity?`, `hasComponent_of_component?`), and each kind
of field asks one of them before it is kept (`relation?_eq_some`,
`component?_eq_some`, `zone?_eq_some`). The headline theorem
`references_resolve` only combines the two.
-/

namespace TypedContent

open List

/-! ## What a reference leads to -/

namespace Schema

/-- The schema has an entity with this UID and this type name. -/
def HasEntity (s : Schema) (uid typeName : String) : Prop :=
  ∃ e ∈ s.entities, e.uid = uid ∧ e.typeName = typeName

/-- The schema has a component with this UID and this type name. -/
def HasComponent (s : Schema) (uid typeName : String) : Prop :=
  ∃ c ∈ s.components, c.uid = uid ∧ c.typeName = typeName

/-- Whether a UID is one of a component and not at the same time one of an
entity. -/
def leadsToComponent (s : Schema) (uid : String) : Bool :=
  s.components.any (·.uid == uid) && !s.entities.any (·.uid == uid)

end Schema

/-- What holds of a dynamic zone of an entity with the declared fields
`fields`: it has variants, each is a component of the schema, and they are
the declared ones that lead to a component, in the declared order. -/
structure ZoneField.Resolved (s : Schema) (fields : List DeclaredField)
    (z : ZoneField) : Prop where
  nonempty : z.variants ≠ []
  variants : ∀ v ∈ z.variants, s.HasComponent v.uid v.componentType
  declared : ∃ f ∈ fields, f.name = z.name ∧ f.fieldClass = .zone
    ∧ z.variants.map ZoneVariant.uid = f.components.filter s.leadsToComponent

/-- Every reference of an entity leads to what its type name says. -/
structure Entity.Resolved (s : Schema) (filter : Filter) (fields : List DeclaredField)
    (e : Entity) : Prop where
  relations :
    ∀ r ∈ e.relations, filter.allows r.target = true ∧ s.HasEntity r.target r.targetType
  components : ∀ c ∈ e.components, s.HasComponent c.component c.componentType
  zones : ∀ z ∈ e.zones, z.Resolved s fields

/-! ## Fields that are kept -/

namespace DeclaredField

variable {known : Known} {filter : Filter} {f : DeclaredField}

theorem attribute?_eq_some {a : Attribute} (h : f.attribute? = some a) :
    a.name = f.name := by
  unfold attribute? at h
  split at h
  · rw [← Option.some.inj h]
  · cases h

theorem media?_eq_some {m : MediaField} (h : f.media? = some m) : m.name = f.name := by
  unfold media? at h
  split at h
  · rw [← Option.some.inj h]
  · cases h

theorem relation?_eq_some {r : Relation} (h : f.relation? known filter = some r) :
    r.name = f.name ∧ filter.allows r.target = true
      ∧ known.entity? r.target = some r.targetType := by
  unfold relation? at h
  split at h
  · simp only [Option.bind_eq_bind, Option.bind_eq_some_iff] at h
    obtain ⟨kind, -, cardinality, -, target, -, h⟩ := h
    split at h
    · rename_i hallowed
      obtain ⟨type, htype, hr⟩ := Option.bind_eq_some_iff.1 h
      obtain rfl := Option.some.inj hr
      exact ⟨rfl, hallowed, htype⟩
    · cases h
  · cases h

theorem component?_eq_some {c : ComponentField} (h : f.component? known = some c) :
    c.name = f.name ∧ known.component? c.component = some c.componentType := by
  unfold component? at h
  split at h
  · simp only [Option.bind_eq_bind, Option.bind_eq_some_iff] at h
    obtain ⟨uid, -, type, htype, hc⟩ := h
    obtain rfl := Option.some.inj hc
    exact ⟨rfl, htype⟩
  · cases h

theorem zone?_eq_some {z : ZoneField} (h : f.zone? known = some z) :
    f.fieldClass = .zone ∧ z.name = f.name ∧ z.variants = f.variants known
      ∧ z.variants ≠ [] := by
  unfold zone? at h
  split at h
  · rename_i hclass
    split at h
    · cases h
    · rename_i variants hne
      obtain rfl := Option.some.inj h
      exact ⟨hclass, rfl, rfl, hne⟩
  · cases h

theorem mem_variants {v : ZoneVariant} (h : v ∈ f.variants known) :
    known.component? v.uid = some v.componentType := by
  obtain ⟨uid, -, hv⟩ := mem_filterMap.1 h
  obtain ⟨type, htype, rfl⟩ := Option.map_eq_some_iff.1 hv
  exact htype

/-- Taking the known components of a zone does not reorder them. -/
theorem variants_map_uid :
    (f.variants known).map ZoneVariant.uid
      = f.components.filter fun uid => (known.component? uid).isSome := by
  unfold variants
  induction f.components with
  | nil => rfl
  | cons uid uids ih =>
    cases hknown : known.component? uid with
    | none => simpa [filterMap_cons, hknown] using ih
    | some type => simpa [filterMap_cons, hknown] using ih

end DeclaredField

/-- The fields of an entity that are kept are declared ones. -/
theorem DeclaredEntity.mem_of_mem_keptFields {filter : Filter} {e : DeclaredEntity}
    {f : DeclaredField} (h : f ∈ e.keptFields filter) :
    f ∈ e.fields :=
  (sortByKey_perm _ _).mem_iff.1 (mem_filter.1 h).1

/-! ## The known UIDs and the schema -/

namespace Schema

variable {components entities : List DeclaredEntity} {filter : Filter}

/-- The UIDs that the fields of an assembled schema may lead to. -/
def knownUids (components entities : List DeclaredEntity) (filter : Filter) : Known :=
  ⟨(sortByKey DeclaredEntity.uid (entities.filter fun e => filter.allows e.uid)).map
    DeclaredEntity.uid,
    (sortByKey DeclaredEntity.uid components).map DeclaredEntity.uid⟩

theorem mem_entities_assemble {e : Entity} :
    e ∈ (assemble components entities filter).entities
      ↔ ∃ d ∈ entities, filter.allows d.uid = true
          ∧ d.assemble (knownUids components entities filter) filter d.kind = e := by
  unfold assemble
  simp only [mem_map, (sortByKey_perm _ _).mem_iff, mem_filter, and_assoc]
  rfl

theorem mem_components_assemble {c : Entity} :
    c ∈ (assemble components entities filter).components
      ↔ ∃ d ∈ components, d.assemble
        (knownUids components entities filter) filter .component = c := by
  unfold assemble
  simp only [mem_map, (sortByKey_perm _ _).mem_iff]
  rfl

theorem entities_assemble_map_uid :
    (assemble components entities filter).entities.map Entity.uid
      = (knownUids components entities filter).entities := by
  simp only [assemble, knownUids, map_map]
  rfl

theorem components_assemble_map_uid :
    (assemble components entities filter).components.map Entity.uid
      = (knownUids components entities filter).components := by
  simp only [assemble, knownUids, map_map]
  rfl

/-- A known entity is an entity of the schema. -/
theorem hasEntity_of_entity? {uid typeName : String}
    (h : (knownUids components entities filter).entity? uid = some typeName) :
    (assemble components entities filter).HasEntity uid typeName := by
  unfold Known.entity? at h
  split at h
  · rename_i hmem
    rw [contains_iff_mem, ← entities_assemble_map_uid] at hmem
    obtain ⟨e, he, huid⟩ := mem_map.1 hmem
    obtain ⟨d, -, -, rfl⟩ := mem_entities_assemble.1 he
    exact ⟨_, he, huid, by rw [← Option.some.inj h, ← huid]; rfl⟩
  · cases h

/-- A known component is a component of the schema. -/
theorem hasComponent_of_component? {uid typeName : String}
    (h : (knownUids components entities filter).component? uid = some typeName) :
    (assemble components entities filter).HasComponent uid typeName := by
  unfold Known.component? at h
  split at h
  · rename_i hmem
    rw [Bool.and_eq_true, contains_iff_mem, ← components_assemble_map_uid] at hmem
    obtain ⟨c, hc, huid⟩ := mem_map.1 hmem.1
    obtain ⟨d, -, rfl⟩ := mem_components_assemble.1 hc
    exact ⟨_, hc, huid, by rw [← Option.some.inj h, ← huid]; rfl⟩
  · cases h

/-- The known components are the UIDs that lead to a component of the
schema. -/
theorem isSome_component? (uid : String) :
    ((knownUids components entities filter).component? uid).isSome
      = (assemble components entities filter).leadsToComponent uid := by
  have hany : ∀ es : List Entity,
      es.any (·.uid == uid) = (es.map Entity.uid).contains uid := by
    intro es
    rw [contains_eq_any_beq, any_map]
    simp [Function.comp_def, Bool.beq_comm]
  unfold leadsToComponent Known.component?
  rw [hany, hany, components_assemble_map_uid, entities_assemble_map_uid]
  split <;> simp_all

/-! ## Resolution -/

/-- Whatever is assembled against the known UIDs refers to the schema
only. -/
theorem resolved_assemble (d : DeclaredEntity) (kind : EntityKind) :
    (d.assemble (knownUids components entities filter) filter kind).Resolved
      (assemble components entities filter) filter d.fields where
  relations := by
    intro r hr
    obtain ⟨f, -, hf⟩ := mem_filterMap.1 hr
    obtain ⟨-, hallowed, htype⟩ := DeclaredField.relation?_eq_some hf
    exact ⟨hallowed, hasEntity_of_entity? htype⟩
  components := by
    intro c hc
    obtain ⟨f, -, hf⟩ := mem_filterMap.1 hc
    exact hasComponent_of_component? (DeclaredField.component?_eq_some hf).2
  zones := by
    intro z hz
    obtain ⟨f, hmem, hf⟩ := mem_filterMap.1 hz
    obtain ⟨hclass, hname, hvariants, hne⟩ := DeclaredField.zone?_eq_some hf
    refine ⟨hne, fun v hv => ?_, f, DeclaredEntity.mem_of_mem_keptFields hmem,
      hname.symm, hclass, ?_⟩
    · rw [hvariants] at hv
      exact hasComponent_of_component? (DeclaredField.mem_variants hv)
    · rw [hvariants, DeclaredField.variants_map_uid]
      exact congrArg (f.components.filter ·) (funext isSome_component?)

/-- **No reference dangles.** In a schema assembled from any declarations
and any filter, every entity and every component refers to entities and
components of that schema only, under their own type names, and every entity
has a UID that the filter allows. -/
theorem references_resolve (components entities : List DeclaredEntity) (filter : Filter) :
    (∀ e ∈ (assemble components entities filter).entities, filter.allows e.uid = true
        ∧ ∃ d ∈ entities, d.uid = e.uid
          ∧ e.Resolved (assemble components entities filter) filter d.fields)
      ∧ ∀ c ∈ (assemble components entities filter).components,
        ∃ d ∈ components, d.uid = c.uid
          ∧ c.Resolved (assemble components entities filter) filter d.fields := by
  constructor
  · intro e he
    obtain ⟨d, hd, hallowed, rfl⟩ := mem_entities_assemble.1 he
    exact ⟨hallowed, d, hd, rfl, resolved_assemble d d.kind⟩
  · intro c hc
    obtain ⟨d, hd, rfl⟩ := mem_components_assemble.1 hc
    exact ⟨d, hd, rfl, resolved_assemble d .component⟩

end Schema

end TypedContent
