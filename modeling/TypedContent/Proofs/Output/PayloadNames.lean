import TypedContent.Proofs.Output.Population
import TypedContent.Proofs.Schema.References

/-!
# Names in payload types

Payload types refer to other types by name. If the types module declares no
name twice (`Schema.servedBy_typesScope`), each name stands for what it is
meant to stand for: base interfaces for the base fields, and the shared
generic types for choices of fields (`Knows`, `Schema.ServedBy.knows`). A
payload type stands for its own definition (`Schema.ServedBy.call_payload`).
Of the schema itself it is used that it has distinct names
(`Schema.WellNamed`) and was assembled from declarations
(`Schema.regular_assemble`).
-/

namespace TypedContent

open List TypeScript

/-! ## Regular schemas -/

/-- The names of all fields of an entity that a schema knows. -/
def Entity.fieldNames (e : Entity) : List String :=
  e.attributes.map Attribute.name ++ e.populatedFields.map PopulatedField.name

/-- The variables of payload types. -/
def payloadVariables : List String :=
  ["P", "K", "S", "V", "Q"]

/-- Type names that are distinct from each other, from the variables and
from the shared types, and distinct field names in each entity. -/
structure Schema.WellNamed (schema : Schema) : Prop where
  distinct : (schema.all.map Entity.typeName).Nodup
  unreserved : ∀ e ∈ schema.all, e.typeName ∉ payloadVariables ++ SharedTypes.names
  fields : ∀ e ∈ schema.all, e.fieldNames.Nodup

/-- The type names that a field leads to. -/
def PopulatedField.types : PopulatedField → List String
  | target _ type _ _ => [type]
  | media _ _ => []
  | zone z => z.variants.map ZoneVariant.componentType

/-- What is used of a schema: besides its names, that every reference leads
to an entity of the schema and that no field takes the name of an identity
field. -/
structure Schema.Regular (schema : Schema) : Prop extends schema.WellNamed where
  resolves : ∀ e ∈ schema.all, ∀ f ∈ e.populatedFields, ∀ t ∈ f.types,
    ∃ e' ∈ schema.all, e'.typeName = t
  identity : ∀ e ∈ schema.all, ∀ name ∈ e.fieldNames, name ∉ systemFields

section Assembled

variable {components entities : List DeclaredEntity} {filter : Filter}

/-- The name of a field of an assembled entity is the name of a declared
field that is kept. -/
theorem DeclaredEntity.mem_fieldNames_assemble {known : Known} {kind : EntityKind}
    {d : DeclaredEntity} {name : String}
    (h : name ∈ (d.assemble known filter kind).fieldNames) :
    ∃ f ∈ d.keptFields filter, f.name = name := by
  simp only [Entity.fieldNames, Entity.populatedFields, assemble, mem_append,
    map_append, map_map, mem_map, mem_filterMap, Function.comp_apply,
    PopulatedField.name] at h
  rcases h with ⟨a, ⟨f, hf, ha⟩, rfl⟩
    | ((⟨r, ⟨f, hf, hr⟩, rfl⟩ | ⟨m, ⟨f, hf, hm⟩, rfl⟩) | ⟨c, ⟨f, hf, hc⟩, rfl⟩)
    | ⟨z, ⟨f, hf, hz⟩, rfl⟩
  · exact ⟨f, hf, (DeclaredField.attribute?_eq_some ha).symm⟩
  · exact ⟨f, hf, (DeclaredField.relation?_eq_some hr).1.symm⟩
  · exact ⟨f, hf, (DeclaredField.media?_eq_some hm).symm⟩
  · exact ⟨f, hf, (DeclaredField.component?_eq_some hc).1.symm⟩
  · exact ⟨f, hf, (DeclaredField.zone?_eq_some hz).2.1.symm⟩

theorem Schema.exists_assemble_of_mem_all {e : Entity}
    (h : e ∈ (Schema.assemble components entities filter).all) :
    ∃ (d : DeclaredEntity) (kind : EntityKind),
      d.assemble (Schema.knownUids components entities filter) filter kind = e := by
  rcases mem_append.1 h with h | h
  · obtain ⟨d, -, hd⟩ := Schema.mem_components_assemble.1 h
    exact ⟨d, .component, hd⟩
  · obtain ⟨d, -, -, hd⟩ := Schema.mem_entities_assemble.1 h
    exact ⟨d, d.kind, hd⟩

/-- Every type that a field leads to is one of the schema. -/
theorem Schema.exists_of_mem_types {e : Entity}
    (he : e ∈ (Schema.assemble components entities filter).all) {f : PopulatedField}
    (hf : f ∈ e.populatedFields) {t : String} (ht : t ∈ f.types) :
    ∃ e' ∈ (Schema.assemble components entities filter).all, e'.typeName = t := by
  obtain ⟨d, kind, rfl⟩ := Schema.exists_assemble_of_mem_all he
  have hresolved :
      (d.assemble (Schema.knownUids components entities filter) filter kind).Resolved
      (Schema.assemble components entities filter) filter d.fields :=
        Schema.resolved_assemble d kind
  have hentity : ∀ {uid type : String},
      (Schema.assemble components entities filter).HasEntity uid type →
      ∃ e' ∈ (Schema.assemble components entities filter).all, e'.typeName = type := by
    rintro uid type ⟨e', he', -, htype⟩
    exact ⟨e', mem_append_right _ he', htype⟩
  have hcomponent : ∀ {uid type : String},
      (Schema.assemble components entities filter).HasComponent uid type →
      ∃ e' ∈ (Schema.assemble components entities filter).all, e'.typeName = type := by
    rintro uid type ⟨e', he', -, htype⟩
    exact ⟨e', mem_append_left _ he', htype⟩
  simp only [Entity.populatedFields, mem_append, mem_map] at hf
  rcases hf with ((⟨r, hr, rfl⟩ | ⟨m, hm, rfl⟩) | ⟨c, hc, rfl⟩) | ⟨z, hz, rfl⟩
  · obtain rfl := mem_singleton.1 ht
    exact hentity (hresolved.relations r hr).2
  · cases ht
  · obtain rfl := mem_singleton.1 ht
    exact hcomponent (hresolved.components c hc)
  · obtain ⟨v, hv, rfl⟩ := mem_map.1 ht
    exact hcomponent ((hresolved.zones z hz).variants v hv)

/-- Assembling sees to everything that is not about names. -/
theorem Schema.regular_assemble
    (h : (Schema.assemble components entities filter).WellNamed) :
    (Schema.assemble components entities filter).Regular where
  toWellNamed := h
  resolves := fun _ he _ hf _ ht => Schema.exists_of_mem_types he hf ht
  identity := by
    intro e he name hname hsystem
    obtain ⟨d, kind, rfl⟩ := Schema.exists_assemble_of_mem_all he
    obtain ⟨f, hf, rfl⟩ := DeclaredEntity.mem_fieldNames_assemble hname
    have hkept : filter.excludes f = false := by simpa using (mem_filter.1 hf).2
    simp [Filter.excludes, hsystem] at hkept

end Assembled

/-! ## Names of the scope -/

/-- Which types the names in payload types stand for. -/
structure Knows (schema : Schema) (call : String → List Value → Option Value) : Prop where
  base : ∀ e ∈ schema.all, call e.typeName [] = some (.object e.baseFields)
  media : call "MediaFile" [] = some (.object mediaFields)
  select : ∀ (fields : Fields) (spec : FieldSpec),
    call "SelectFields" [.object fields, spec.value]
      = some (.object (narrow spec.wanted fields))
  others : ∀ (fields : Fields) (names : List String),
    call "Omit" [.object fields, .oneOf names]
      = some (.object (fields.filter fun field => decide (field.1 ∉ names)))

/-- The predefined types that payload types and what they refer to use. -/
def payloadUtilities : List String :=
  ["Extract", "Omit", "Pick", "Record"]

/-- The shared types that are not looked into. -/
def plainShared : List String :=
  ["BlocksContent", "JsonValue", "MediaFormat"]

/-- A scope that declares, once each, the types that the payload types of a
schema refer to, and leaves the predefined ones as they are. -/
structure Schema.ServedBy (schema : Schema) (s : Scope) : Prop where
  once : s.typeNames.Nodup
  base : ∀ e ∈ schema.all, e.baseInterface ∈ s
  payload : ∀ e ∈ schema.all, e.isPopulatable = true → e.payloadAlias schema ∈ s
  media : SharedTypes.mediaFileInterface ∈ s
  select : SharedTypes.selectFieldsAlias ∈ s
  outer : ∀ name ∈ payloadUtilities ++ plainShared, name ∉ s.typeNames

/-- The types module is such a scope if it declares no name twice. -/
theorem Schema.servedBy_typesScope (schema : Schema) (routes : RouteSet)
    (fingerprint : String)
    (h : ((typesModule schema routes fingerprint).typeNames ++ SharedTypes.names
      ++ payloadUtilities).Nodup) :
    schema.ServedBy (typesScope schema routes fingerprint) := by
  have hdeclared : ∀ e ∈ schema.all, ∀ d ∈ e.declarations schema,
      d ∈ typesScope schema routes fingerprint := by
    intro e he d hd
    rw [typesScope, declarations_typesModule]
    exact mem_append_left _ (mem_typeDeclarations routes he hd)
  rw [append_assoc, nodup_append'] at h
  obtain ⟨htypes, -, hdisjoint⟩ := h
  refine
    { once := ?_
      base := fun e he => hdeclared e he _ (by simp [Entity.declarations])
      payload := fun e he hpopulatable =>
        hdeclared e he _ (mem_declarations_populate hpopulatable).2.2
      media := mem_append_right _ (by simp)
      select := mem_append_right _ (by simp)
      outer := ?_ }
  · rw [typeNames_typesScope, nodup_append']
    exact ⟨htypes, by decide, disjoint_of_subset_right (by decide) hdisjoint⟩
  · have hnames : ∀ name ∈ payloadUtilities ++ plainShared,
        name ∈ SharedTypes.names ++ payloadUtilities
          ∧ name ∉ ["MediaFile", "SelectFields"] := by
      decide
    intro name hname
    rw [typeNames_typesScope, mem_append, not_or]
    exact ⟨fun hmem => hdisjoint hmem (hnames name hname).1, (hnames name hname).2⟩

namespace Schema.ServedBy

variable {schema : Schema} {s : Scope} (h : schema.ServedBy s) (n : Nat)

include h

theorem call_outer (name : String) (hname : name ∈ payloadUtilities ++ plainShared)
    (args : List Value) :
    s.call predefined (n + 1) name args = predefined name args :=
  Scope.call_of_notMem (h.outer name hname) args

theorem eval_scalar (type : ScalarType) :
    evalWith (s.call predefined (n + 1)) [] type.type = some type.payloadValue := by
  cases type with
  | blocks => exact h.call_outer n _ (by decide) []
  | json => exact h.call_outer n _ (by decide) []
  | enumeration values =>
    cases values with
    | nil => rfl
    | cons v vs =>
      have htypes : evalTypes (s.call predefined (n + 1)) [] ((v :: vs).map TypeExpr.text)
          = some ((v :: vs).map Value.text) := evalTypes_map fun _ _ => rfl
      change (evalTypes _ [] ((v :: vs).map TypeExpr.text)).map Value.unionOf = _
      rw [htypes]
      rfl
  | _ => rfl

theorem eval_attribute (a : Attribute) :
    evalWith (s.call predefined (n + 1)) [] a.valueType = some a.payloadValue := by
  have htype := h.eval_scalar n a.type
  unfold Attribute.valueType Attribute.payloadValue
  split
  · exact htype
  · rw [TypeExpr.nullable, evalWith, evalTypes, htype]
    rfl

/-- The base interface of an entity has its base fields. -/
theorem call_base {e : Entity} (he : e ∈ schema.all) :
    s.call predefined (n + 2) e.typeName [] = some (.object e.baseFields) := by
  have hidentity : evalProperties (s.call predefined (n + 1)) [] e.identityFields
      = some e.identityValues := by
    unfold Entity.identityFields Entity.identityValues
    split <;> rfl
  have hattributes : evalProperties (s.call predefined (n + 1)) []
      (e.attributes.map fun a => .required a.name a.valueType)
        = some (e.attributes.map fun a => (a.name, a.payloadValue)) :=
    evalProperties_map fun a _ => h.eval_attribute n a
  refine (Scope.call_interface h.once (h.base e he) rfl).trans ?_
  rw [evalProperties_append hidentity hattributes]
  rfl

theorem call_media :
    s.call predefined (n + 2) "MediaFile" [] = some (.object mediaFields) := by
  have hformat := h.call_outer n "MediaFormat" (by decide) []
  have hrecord := h.call_outer n "Record" (by decide)
  refine (Scope.call_interface h.once h.media rfl).trans ?_
  generalize s.call predefined (n + 1) = call at hformat hrecord
  have hformats : evalProperties call []
      [.required "formats" (.nullable (.record .string (.ref "MediaFormat")))]
      = some [("formats",
        .unionOf [.record (.primitive .string) (.named "MediaFormat"), .null])] := by
    have htype : evalWith call [] (.record .string (.ref "MediaFormat"))
        = some (.record (.primitive .string) (.named "MediaFormat")) := by
      rw [evalWith, evalWith_free rfl, hformat]
      exact (hrecord _).trans (predefined_record _ _)
    rw [Property.required, evalProperties, TypeExpr.nullable, evalWith, evalTypes, htype]
    rfl
  -- the fields before and after the formats have types without names
  have hbefore : evalProperties call [] (SharedTypes.mediaFileInterface.properties.take 7)
      = some (mediaFields.take 7) := rfl
  have hafter : evalProperties call [] (SharedTypes.mediaFileInterface.properties.drop 8)
      = some (mediaFields.drop 8) := rfl
  exact congrArg (Option.map Value.object)
    (evalProperties_append hbefore (evalProperties_append hformats hafter))

/-- A payload type, applied to what is asked for. -/
theorem call_payload {e : Entity} (he : e ∈ schema.all)
    (hpopulatable : e.isPopulatable = true) (value : Value) :
    s.call predefined (n + 1) (TypeName.withPopulate e.typeName) [value]
      = evalWith (s.call predefined n) [(specParameter, value)] (e.payload schema) :=
  Scope.call_typeAlias h.once (h.payload e he hpopulatable) rfl

/-- The choice of fields, applied to an object type and options. -/
theorem call_select (fields : Fields) (value : Value) :
    s.call predefined (n + 1) "SelectFields" [.object fields, value]
      = evalWith (s.call predefined n) [("T", .object fields), ("S", value)]
          (.conditional (.ref "S")
            (.object [.required "fields" (.readonlyArray (.infer "F"))])
            (.generic "Pick" [.ref "T",
              .generic "Extract" [.union [.ref "F", .text "id", .text "documentId"],
                .keyof (.ref "T")]])
            (.ref "T")) :=
  Scope.call_typeAlias h.once h.select rfl

/-- The choice of fields keeps the wanted ones. -/
theorem call_select_spec (fields : Fields) (spec : FieldSpec) :
    s.call predefined (n + 2) "SelectFields" [.object fields, spec.value]
      = some (.object (narrow spec.wanted fields)) := by
  have hmatch :
      (Value.object [("fields", .readonlyArray (.hole "F"))]).match? spec.value.members
      = spec.wanted.map fun names => [("F", .oneOf names)] := by
    rw [Value.match?_field spec.isAtom_value, spec.field?_fields]
    cases spec.wanted with
    | none => rfl
    | some names =>
      change some [("F", Value.ofMembers (names.map Value.text ++ []))] = _
      rw [append_nil, Value.ofMembers_texts]
      rfl
  have hpick := h.call_outer n "Pick" (by decide)
  have hextract := h.call_outer n "Extract" (by decide)
  rw [h.call_select]
  generalize s.call predefined (n + 1) = call at hpick hextract
  refine evalWith_conditional_match rfl spec.isAtom_value rfl hmatch
    (fun names hwanted => ?_) (fun hwanted => ?_)
    (Value.isAtom_object _)
  · rw [hwanted]
    generalize henv : [("F", Value.oneOf names)] ++ _ = env
    have hlisted : evalWith call env (.union [.ref "F", .text "id", .text "documentId"])
        = some (.oneOf (names ++ ["id", "documentId"])) := by
      rw [← Value.unionOf_oneOf_cons, ← henv]
      rfl
    have hkeys : evalWith call env (.keyof (.ref "T"))
        = some (.oneOf (fields.map Prod.fst)) := by
      rw [← henv]
      rfl
    have hnames : evalWith call env
        (.generic "Extract" [.union [.ref "F", .text "id", .text "documentId"],
          .keyof (.ref "T")])
          = some (.oneOf ((names ++ ["id", "documentId"]).filter fun t =>
            decide (t ∈ fields.map Prod.fst))) := by
      rw [evalWith, evalTypes, hlisted, evalTypes, hkeys]
      exact (hextract _).trans (predefined_extract _ _)
    have hobject : evalWith call env (.ref "T") = some (.object fields) := by
      rw [← henv]
      rfl
    rw [evalWith, evalTypes, hobject, evalTypes, hnames]
    refine ((hpick _).trans (predefined_pick _ _)).trans
      (congrArg (some ∘ Value.object) ?_)
    rw [Value.pick_oneOf, narrow]
    refine filter_congr fun field hfield => ?_
    have hmem : field.1 ∈ fields.map Prod.fst := mem_map_of_mem hfield
    simp only [mem_filter, hmem, decide_true, and_true, contains_eq_mem]
  · rw [hwanted]
    rfl

theorem knows : Knows schema (s.call predefined (n + 2)) where
  base := fun _ he => h.call_base n he
  media := h.call_media n
  select := h.call_select_spec n
  others := fun fields names => (h.call_outer (n + 1) "Omit" (by decide) _).trans
    (predefined_omit fields names)

end Schema.ServedBy

end TypedContent
