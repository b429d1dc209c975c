import TypedContent.Proofs.Output.PayloadNames
import TypedContent.Proofs.TypeScript.Scoping

/-!
# The types module is closed

Every name in a generated declaration is bound where it stands, declared by
the same module, shared, or the built-in `Omit` (`types_closed`). Names of
other entities come from references that the schema resolved, so their
declarations exist, whatever else has the same type name. The population
types of a target are another matter: they are declared for populatable
entities only. A reference to them asks the first entity of the type name,
and an entity that says yes declares them itself
(`Schema.exists_of_isPopulatable`).

What one declaration needs is stated against any set of known names that has
those of the schema (`Schema.Declares`); that the module's own names are
such a set is shown once, at the end.
-/

namespace TypedContent

open List TypeScript

variable {spec : String}

/-! ## What a schema declares -/

/-- The names that the declarations of a schema may use. -/
structure Schema.Declares (schema : Schema) (known : String → Prop) : Prop where
  shared : ∀ name ∈ SharedTypes.names, known name
  omission : known "Omit"
  base : ∀ e ∈ schema.all, known e.typeName
  input : ∀ e ∈ schema.all, known (TypeName.input e.typeName)
  filters : ∀ e ∈ schema.all, known (TypeName.filters e.typeName)
  param : ∀ e ∈ schema.all, e.isPopulatable = true →
    known (TypeName.populateParam e.typeName)
  populate : ∀ type, schema.isPopulatable type = true → known (TypeName.populate type)
  payload : ∀ type, schema.isPopulatable type = true → known (TypeName.withPopulate type)

/-- The type is the name of an entity of the schema. -/
def Schema.HasType (schema : Schema) (type : String) : Prop :=
  ∃ e ∈ schema.all, e.typeName = type

/-- The first entity of a type name is one that declares its population
types. -/
theorem Schema.exists_of_isPopulatable {schema : Schema} {type : String}
    (h : schema.isPopulatable type = true) :
    ∃ e ∈ schema.all, e.typeName = type ∧ e.isPopulatable = true := by
  unfold Schema.isPopulatable Schema.findByTypeName? at h
  obtain ⟨e, hfound, hpopulatable⟩ := Option.any_eq_true _ _ |>.1 h
  exact ⟨e, mem_of_find?_eq_some hfound, by simpa using find?_some hfound, hpopulatable⟩

/-! ## Declarations of one entity -/

theorem ScalarType.mem_of_filter? {type : ScalarType} {name : String}
    (h : type.filter? = some name) :
    name ∈ ["StringFilter", "NumberFilter", "BooleanFilter", "DateFilter",
      "IdFilter"] := by
  cases type with
  | json | blocks => cases h
  | _ =>
    obtain rfl := Option.some.inj h
    decide

section Entity

variable {scope : List String} {e : Entity} {f : PopulatedField}

variable {schema : Schema} {known : String → Prop} (hknown : schema.Declares known)

theorem closed_oneOrMany {item : TypeExpr} (h : item.Closed known scope) (isMany : Bool) :
    (oneOrMany item isMany).Closed known scope := by
  cases isMany <;> simp [oneOrMany, TypeExpr.nullable, TypeExpr.null, h]

theorem closed_taggedVariant {type : TypeExpr} (h : type.Closed known scope)
    (uid : String) :
    (taggedVariant type uid).Closed known scope := by
  simp [taggedVariant, h, Property.required, Property.type, TypeExpr.text]

theorem closed_singleProperty {type : TypeExpr} {name : String} :
    (singleProperty name type).Closed known scope ↔ type.Closed known scope := by
  simp [singleProperty, Property.required, Property.type]

theorem inferred_singleProperty (name : String) (type : TypeExpr) :
    (singleProperty name type).inferred = type.inferred := by
  simp [singleProperty, Property.required, TypeExpr.inferred,
    TypeExpr.inferredOfProperties]

theorem closed_trueOr {options : List Property} :
    (trueOr options).Closed known scope ↔ ∀ p ∈ options, p.type.Closed known scope := by
  simp [trueOr]

include hknown

theorem Schema.Declares.hasType {type : String} (h : schema.HasType type) :
    known type ∧ known (TypeName.input type) ∧ known (TypeName.filters type) := by
  obtain ⟨e, he, rfl⟩ := h
  exact ⟨hknown.base e he, hknown.input e he, hknown.filters e he⟩

theorem closed_valueType (a : Attribute) (scope : List String) :
    a.valueType.Closed known scope := by
  have hjson : known "JsonValue" := hknown.shared _ (by decide)
  have hblocks : known "BlocksContent" := hknown.shared _ (by decide)
  have hscalar : a.type.type.Closed known scope := by
    cases a.type with
    | enumeration values =>
      cases values <;> simp [ScalarType.type, TypeExpr.string, TypeExpr.text]
    | _ => simp [ScalarType.type, TypeExpr.string, TypeExpr.number, TypeExpr.boolean,
      hjson, hblocks]
  unfold Attribute.valueType
  split
  · exact hscalar
  · simp [TypeExpr.nullable, TypeExpr.null, hscalar]

theorem Entity.closed_baseInterface (e : Entity) :
    ∀ name ∈ e.baseInterface.freeNames, known name := by
  have hidentity : ∀ p ∈ e.identityFields, p.type.Closed known [] := by
    unfold Entity.identityFields
    split <;> simp [Property.required, Property.type, TypeExpr.number, TypeExpr.string,
      TypeExpr.nullable, TypeExpr.null]
  have hattributes :
      ∀ p ∈ e.attributes.map (fun a => Property.required a.name a.valueType),
      p.type.Closed known [] := by
    intro p hp
    obtain ⟨a, -, rfl⟩ := mem_map.1 hp
    exact closed_valueType hknown a []
  have hproperties :=
    TypeExpr.closed_properties.2 (forall_mem_append.2 ⟨hidentity, hattributes⟩)
  simpa [Entity.baseInterface, Declaration.freeNames, Head.freeNames,
    TypeExpr.freeNamesOfTypes] using hproperties

theorem Entity.closed_filtersInterface (he : e ∈ schema.all) :
    ∀ name ∈ e.filtersInterface.freeNames, known name := by
  have hfilter :
      ∀ name ∈ ["StringFilter", "NumberFilter", "BooleanFilter",
        "DateFilter", "IdFilter"],
      known name := by
    intro name hname
    have hsub :
        ["StringFilter", "NumberFilter", "BooleanFilter", "DateFilter", "IdFilter"]
      ⊆ SharedTypes.names := by decide
    exact hknown.shared name (hsub hname)
  have hself : known (TypeName.filters e.typeName) := hknown.filters e he
  have hidentity : ∀ p ∈ e.identityFilters, p.type.Closed known [] := by
    have hnumber := hfilter "NumberFilter" (by decide)
    have hstring := hfilter "StringFilter" (by decide)
    have hdate := hfilter "DateFilter" (by decide)
    unfold Entity.identityFilters
    split <;> simp [Property.optional, Property.type, hnumber, hstring, hdate]
  have hattributes : ∀ p ∈ e.attributes.filterMap (fun a => a.type.filter?.map fun name =>
      Property.optional a.name (.ref name)), p.type.Closed known [] := by
    intro p hp
    obtain ⟨a, -, ha⟩ := mem_filterMap.1 hp
    obtain ⟨name, hname, rfl⟩ := Option.map_eq_some_iff.1 ha
    exact (TypeExpr.closed_ref name).2
      (.inr (hfilter name (ScalarType.mem_of_filter? hname)))
  have hids :
      ∀ p ∈ (e.relations.map Relation.name
        ++ e.media.map MediaField.name).map (fun name =>
      Property.optional name (.ref "IdFilter")), p.type.Closed known [] := by
    intro p hp
    obtain ⟨name, -, rfl⟩ := mem_map.1 hp
    exact (TypeExpr.closed_ref _).2 (.inr (hfilter _ (by decide)))
  have hproperties : ∀ p ∈ e.filtersInterface.properties, p.type.Closed known [] := by
    simp only [Entity.filtersInterface, Declaration.properties, forall_mem_append]
    refine ⟨⟨⟨hidentity, hattributes⟩, hids⟩, ?_⟩
    simp [Property.optional, Property.type, hself]
  have hnames := TypeExpr.closed_properties.2 hproperties
  simpa [Entity.filtersInterface, Declaration.properties, Declaration.freeNames,
    Head.freeNames, TypeExpr.freeNamesOfTypes] using hnames

/-- What a reference to another entity needs. -/
theorem closed_targetOptions {type : String} (htype : schema.HasType type)
    (isRelation : Bool) :
    ∀ p ∈ targetOptions type isRelation schema, p.type.Closed known [] := by
  obtain ⟨hbase, -, hfilters⟩ := hknown.hasType htype
  have hsort : known "SortParam" := hknown.shared _ (by decide)
  have hpages : known "PaginationParams" := hknown.shared _ (by decide)
  have hpopulate := hknown.populate type
  intro p hp
  simp only [targetOptions, mem_cons, mem_append] at hp
  rcases hp with (rfl | hp) | hp
  · simp [Property.optional, Property.type, keysOf, hbase]
  · split at hp
    · rename_i hguard
      obtain rfl := mem_singleton.1 hp
      simp [Property.optional, Property.type, hpopulate hguard]
    · cases hp
  · split at hp
    · simp only [mem_cons, not_mem_nil, or_false] at hp
      rcases hp with rfl | rfl | rfl <;>
        simp [Property.optional, Property.type, hbase, hfilters, hsort, hpages]
    · cases hp

theorem Entity.closed_inputInterface
    (htypes : ∀ f ∈ e.populatedFields, ∀ t ∈ f.types, schema.HasType t) :
    ∀ name ∈ e.inputInterface.freeNames, known name := by
  have hcomponent : ∀ c ∈ e.components, known (TypeName.input c.componentType) := by
    intro c hc
    have hfield : PopulatedField.target c.name c.componentType c.isRepeatable false
        ∈ e.populatedFields := by
      simp only [Entity.populatedFields, mem_append, mem_map]
      exact .inl (.inr ⟨c, hc, rfl⟩)
    exact (hknown.hasType (htypes _ hfield _ mem_cons_self)).2.1
  have hvariant : ∀ z ∈ e.zones, ∀ v ∈ z.variants,
      known (TypeName.input v.componentType) := by
    intro z hz v hv
    have hfield : PopulatedField.zone z ∈ e.populatedFields :=
      mem_append_right _ (mem_map_of_mem hz)
    exact (hknown.hasType (htypes _ hfield _ (mem_map_of_mem hv))).2.1
  have hproperties : ∀ p ∈ e.inputInterface.properties, p.type.Closed known [] := by
    simp only [Entity.inputInterface, Declaration.properties, forall_mem_append,
      forall_mem_map]
    refine ⟨⟨⟨⟨⟨?_, ?_⟩, ?_⟩, ?_⟩, ?_⟩, ?_⟩
    · split <;> simp [Property.optional, Property.type, TypeExpr.number]
    · exact fun a _ => closed_valueType hknown a []
    · exact fun r _ => closed_oneOrMany (TypeExpr.closed_primitive _) _
    · exact fun m _ => closed_oneOrMany (TypeExpr.closed_primitive _) _
    · exact fun c hc => closed_oneOrMany
        ((TypeExpr.closed_ref _).2 (.inr (hcomponent c hc))) _
    · intro z hz
      simp only [Property.optional, Property.type, TypeExpr.closed_array,
        TypeExpr.closed_union, forall_mem_map]
      exact fun v hv => closed_taggedVariant
        ((TypeExpr.closed_ref _).2 (.inr (hvariant z hz v hv))) v.uid
  have hnames := TypeExpr.closed_properties.2 hproperties
  simpa [Entity.inputInterface, Declaration.properties, Declaration.freeNames,
    Head.freeNames, TypeExpr.freeNamesOfTypes] using hnames

theorem PopulatedField.closed_paramType (htypes : ∀ t ∈ f.types, schema.HasType t) :
    (f.paramType schema).Closed known [] := by
  cases f with
  | target name type isMany isRelation =>
    exact closed_trueOr.2
      (closed_targetOptions hknown (htypes type mem_cons_self) isRelation)
  | media name isMany =>
    have hmedia : known "MediaFile" := hknown.shared _ (by decide)
    simp [PopulatedField.paramType, trueOr, Property.optional, Property.type,
      keysOf, hmedia]
  | zone z =>
    simp only [PopulatedField.paramType, closed_trueOr, forall_mem_singleton,
      Property.optional, Property.type, TypeExpr.closed_object, forall_mem_map]
    exact fun v hv => closed_targetOptions hknown (htypes _ (mem_map_of_mem hv)) false

/-! ## Payloads

The variables go in and out of scope as the branches do: `K` in the branch
for lists, `S` in the branch for a field that has an entry, `V` where a zone
has options for a variant, and `Q` where options ask for more. -/

theorem PopulatedField.closed_oneLevel (htypes : ∀ t ∈ f.types, schema.HasType t)
    (scope : List String) : f.oneLevel.Closed known scope := by
  cases f with
  | target name type isMany isRelation =>
    have hbase := (hknown.hasType (htypes type mem_cons_self)).1
    exact closed_oneOrMany ((TypeExpr.closed_ref _).2 (.inr hbase)) isMany
  | media name isMany =>
    exact closed_oneOrMany
      ((TypeExpr.closed_ref _).2 (.inr (hknown.shared _ (by decide)))) isMany
  | zone z =>
    simp only [PopulatedField.oneLevel, TypeExpr.closed_array, TypeExpr.closed_union,
      forall_mem_map]
    intro v hv
    have hbase := (hknown.hasType (htypes _ (mem_map_of_mem hv))).1
    exact closed_taggedVariant ((TypeExpr.closed_ref _).2 (.inr hbase)) v.uid

theorem closed_selectFields {target : String} (htarget : known target)
    (hspec : spec ∈ scope) : (selectFields target spec).Closed known scope := by
  have hselect : known "SelectFields" := hknown.shared _ (by decide)
  simp [selectFields, hselect, htarget, hspec]

theorem closed_selected {target : String} (htarget : schema.HasType target)
    (hspec : spec ∈ scope) : (selected target spec schema).Closed known scope := by
  have hbase := (hknown.hasType htarget).1
  have hfields := closed_selectFields hknown hbase hspec
  unfold selected
  split
  · rename_i hguard
    have hpayload := hknown.payload target hguard
    simp [hfields, hspec, closed_singleProperty, inferred_singleProperty,
      TypeExpr.inferred, hknown.omission, hpayload, hbase, TypeExpr.emptyObject]
  · exact hfields

theorem PopulatedField.closed_nested (htypes : ∀ t ∈ f.types, schema.HasType t)
    (hspec : "S" ∈ scope) :
    (f.nested schema).Closed known scope := by
  cases f with
  | target name type isMany isRelation =>
    exact closed_oneOrMany
      (closed_selected hknown (htypes type mem_cons_self) hspec) isMany
  | media name isMany =>
    exact closed_oneOrMany
      (closed_selectFields hknown (hknown.shared _ (by decide)) hspec) isMany
  | zone z =>
    simp only [PopulatedField.nested, TypeExpr.closed_array, TypeExpr.closed_union,
      forall_mem_map]
    intro v hv
    have htype := htypes _ (mem_map_of_mem hv)
    have hbase := (hknown.hasType htype).1
    refine closed_taggedVariant
      ((TypeExpr.closed_conditional ..).2 ⟨?_, ?_, ?_, ?_⟩) v.uid
    · exact (TypeExpr.closed_ref _).2 (.inl hspec)
    · exact closed_singleProperty.2 (closed_singleProperty.2 (TypeExpr.closed_infer _))
    · refine closed_selected hknown htype (mem_append_left scope ?_)
      simp [inferred_singleProperty, TypeExpr.inferred]
    · exact (TypeExpr.closed_ref _).2 (.inr hbase)

theorem Entity.closed_payload (he : e ∈ schema.all)
    (htypes : ∀ f ∈ e.populatedFields, ∀ t ∈ f.types, schema.HasType t) :
    (e.payload schema).Closed known [specParameter] := by
  have hbase := hknown.base e he
  have hspec : ∀ scope, (TypeExpr.ref specParameter).Closed known
      (scope ++ [specParameter]) := fun scope =>
    (TypeExpr.closed_ref _).2 (.inl (by simp))
  have hwith : ∀ (scope : List String) (parts : List TypeExpr),
      (∀ t ∈ parts, t.Closed known scope) →
      (withBase e.typeName parts).Closed known scope := by
    intro scope parts hparts
    simpa [withBase, hbase] using hparts
  have hwildcard : ∀ scope, wildcard.Closed known scope := fun scope => by
    simp [wildcard, TypeExpr.text]
  refine (TypeExpr.closed_conditional ..).2 ⟨hspec [], hwildcard _, hwith _ _ ?_, ?_⟩
  · simp only [forall_mem_singleton, TypeExpr.closed_object, forall_mem_map]
    exact fun f hf => f.closed_oneLevel hknown (htypes f hf) _
  refine (TypeExpr.closed_conditional ..).2 ⟨hspec [], by simp, hwith _ _ ?_, ?_⟩
  · -- a list: each field asks whether its name is among the keys `K`
    simp only [forall_mem_map]
    intro f hf
    refine (TypeExpr.closed_conditional ..).2
      ⟨TypeExpr.closed_literal _, ?_, ?_, by simp [TypeExpr.emptyObject]⟩
    · exact (TypeExpr.closed_ref _).2 (.inl (by simp [TypeExpr.inferred]))
    · exact closed_singleProperty.2 (f.closed_oneLevel hknown (htypes f hf) _)
  refine (TypeExpr.closed_conditional ..).2
    ⟨hspec [], by simp, hwith _ _ ?_, by simp [hbase]⟩
  -- an object: each field binds its own options `S`
  simp only [forall_mem_map]
  intro f hf
  refine (TypeExpr.closed_conditional ..).2
    ⟨hspec _, ?_, ?_, by simp [TypeExpr.emptyObject]⟩
  · exact closed_singleProperty.2 (TypeExpr.closed_infer _)
  · refine closed_singleProperty.2 (f.closed_nested hknown (htypes f hf) ?_)
    simp [inferred_singleProperty, TypeExpr.inferred]

theorem Entity.closed_declarations (he : e ∈ schema.all)
    (htypes : ∀ f ∈ e.populatedFields, ∀ t ∈ f.types, schema.HasType t) :
    ∀ d ∈ e.declarations schema, ∀ name ∈ d.freeNames, known name := by
  intro d hd
  simp only [Entity.declarations, mem_append, mem_cons, not_mem_nil, or_false] at hd
  rcases hd with ((rfl | rfl) | hd) | rfl
  · exact e.closed_baseInterface hknown
  · exact e.closed_inputInterface hknown htypes
  · split at hd
    · rename_i hpopulatable
      have hparam := hknown.param e he hpopulatable
      simp only [mem_cons, not_mem_nil, or_false] at hd
      rcases hd with rfl | rfl | rfl
      · have hproperties : ∀ p ∈ e.populatedFields.map
            (fun f => Property.optional f.name (f.paramType schema)),
            p.type.Closed known [] := by
          intro p hp
          obtain ⟨f, hf, rfl⟩ := mem_map.1 hp
          exact f.closed_paramType hknown (htypes f hf)
        have hnames := TypeExpr.closed_properties.2 hproperties
        simpa [Entity.populateParam, Declaration.freeNames, Head.freeNames,
          TypeExpr.freeNamesOfTypes] using hnames
      · have hforms : (TypeExpr.union [wildcard, fieldList e.typeName,
            .ref (TypeName.populateParam e.typeName)]).Closed known [] := by
          simp [wildcard, fieldList, TypeExpr.text, hparam]
        intro name hname
        refine hforms name ?_
        simpa [Entity.populateAlias, Declaration.freeNames, Head.freeNames,
          TypeExpr.freeNamesOfTypes] using hname
      · intro name hname
        refine e.closed_payload hknown he htypes name ?_
        simpa [Entity.payloadAlias, Declaration.freeNames, Head.freeNames,
          TypeExpr.freeNamesOfTypes] using hname
    · cases hd
  · exact e.closed_filtersInterface hknown he

end Entity

/-! ## Guards of population types -/

section Guards

variable {schema : Schema} {type : String}

theorem isPopulatable_of_mem_targetOptions {isRelation : Bool}
    (h : TypeName.populate type ∈ TypeExpr.namesOfProperties
      (targetOptions type isRelation schema)) :
    schema.isPopulatable type = true := by
  by_contra hguard
  have hself : TypeName.populate type ≠ type := fun heq => by
    have hlength := congrArg String.length heq
    simp [TypeName.populate] at hlength
  have hfilters : TypeName.populate type ≠ TypeName.filters type := fun heq => by
    have hlist := congrArg String.toList heq
    simp [TypeName.populate, TypeName.filters] at hlist
  have hsuffix : "Populate".toList <:+ (TypeName.populate type).toList := by
    rw [TypeName.populate, String.toList_append]
    exact List.suffix_append _ _
  have hshared : TypeName.populate type ≠ "SortParam"
      ∧ TypeName.populate type ≠ "PaginationParams" := by
    constructor <;> intro heq <;> rw [heq] at hsuffix <;> revert hsuffix <;> decide
  cases isRelation <;>
    simp [targetOptions, hguard, TypeExpr.namesOfProperties, TypeExpr.names,
      TypeExpr.namesOfTypes, keysOf, Property.optional, hself, hfilters, hshared] at h

theorem isPopulatable_of_mem_selected (hspec : spec ∈ ["S", "V"])
    (h : TypeName.withPopulate type ∈ (selected type spec schema).names) :
    schema.isPopulatable type = true := by
  by_contra hguard
  have hself : TypeName.withPopulate type ≠ type := fun heq => by
    have hlength := congrArg String.length heq
    simp [TypeName.withPopulate] at hlength
  have hlong : TypeName.withPopulate type ≠ spec := fun heq => by
    have hlength := congrArg (List.length ∘ String.toList) heq
    simp only [mem_cons, not_mem_nil, or_false] at hspec
    rcases hspec with rfl | rfl <;> simp [TypeName.withPopulate] at hlength
  have hselect : TypeName.withPopulate type ≠ "SelectFields" := fun heq => by
    have hsuffix : "WithPopulate".toList <:+ "SelectFields".toList := by
      rw [← heq, TypeName.withPopulate, String.toList_append]
      exact List.suffix_append _ _
    revert hsuffix
    decide
  simp [selected, hguard, selectFields, TypeExpr.names, TypeExpr.namesOfTypes, hself,
    hlong, hselect] at h

end Guards

/-! ## The module -/

section Module

variable (schema : Schema) (routes : RouteSet) (fingerprint : String)

variable {schema}

/-- The names of the types module include all that its declarations may
use. -/
theorem Schema.declares_typesModule :
    schema.Declares fun name =>
      name ∈ (typesModule schema routes fingerprint).typeNames
        ∨ name ∈ SharedTypes.names ∨ name = "Omit" := by
  have hname : ∀ {e : Entity} {d : Declaration},
      e ∈ schema.all → d ∈ e.declarations schema → d.isType = true →
      d.name ∈ (typesModule schema routes fingerprint).typeNames := by
    intro e d he hd htype
    rw [Module.typeNames, declarations_typesModule]
    exact mem_map.2 ⟨d, mem_filter.2 ⟨mem_typeDeclarations routes he hd, htype⟩, rfl⟩
  refine
    { shared := fun name h => .inr (.inl h)
      omission := .inr (.inr rfl)
      base :=
        fun e he => .inl
          (hname he (d := e.baseInterface) (by simp [Entity.declarations]) rfl)
      input :=
        fun e he => .inl
          (hname he (d := e.inputInterface) (by simp [Entity.declarations]) rfl)
      filters :=
        fun e he => .inl
          (hname he (d := e.filtersInterface) (by simp [Entity.declarations]) rfl)
      param := fun e he h => .inl (hname he (mem_declarations_populate h).1 rfl)
      populate := fun type h => ?_
      payload := fun type h => ?_ }
  · obtain ⟨e, he, rfl, hpopulatable⟩ := Schema.exists_of_isPopulatable h
    exact .inl (hname he (mem_declarations_populate hpopulatable).2.1 rfl)
  · obtain ⟨e, he, rfl, hpopulatable⟩ := Schema.exists_of_isPopulatable h
    exact .inl (hname he (mem_declarations_populate hpopulatable).2.2 rfl)

/-- The types of endpoints are texts, so the namespaces of routes refer to
nothing. -/
theorem freeNames_of_mem_namespaces {d : Declaration} (hd : d ∈ routes.namespaces) :
    d.freeNames = [] := by
  have hmembers : ∀ ds : List Declaration, (∀ d ∈ ds, d.freeNames = []) →
      Declaration.freeNamesOfMembers ds = [] := by
    intro ds h
    induction ds with
    | nil => rfl
    | cons d ds ih =>
      rw [Declaration.freeNamesOfMembers, h d mem_cons_self,
        ih fun d' hd' => h d' (mem_cons_of_mem _ hd'), nil_append]
  obtain ⟨owner, -, hd⟩ := mem_filterMap.1 hd
  unfold RouteSet.ownerNamespace? at hd
  split at hd
  · cases hd
  · obtain rfl := Option.some.inj hd
    rw [Declaration.freeNames, hmembers]
    · rfl
    · intro member hmember
      simp only [RouteSet.ownerAliases, mem_flatMap] at hmember
      obtain ⟨r, -, hr⟩ := hmember
      split at hr
      · cases hr
      · obtain ⟨slot, -, hslot⟩ := mem_filterMap.1 hr
        obtain ⟨text, -, rfl⟩ := Option.map_eq_some_iff.1 hslot
        simp [Declaration.freeNames, Head.freeNames, TypeExpr.freeNamesOfTypes,
          TypeExpr.freeNames]

end Module

/-- **The types module is closed.** In the module of any assembled schema
and any routes, a name that no type parameter and no inferred variable in
scope accounts for is a type of the module, a shared type or `Omit`. The
population types of a target are referred to only if an entity of that type
name declares them. -/
theorem types_closed (components entities : List DeclaredEntity) (filter : Filter)
    (routes : RouteSet) (fingerprint : String) :
    let schema := Schema.assemble components entities filter
    let types := typesModule schema routes fingerprint
    (∀ d ∈ types.declarations, ∀ name ∈ d.freeNames,
        name ∈ types.typeNames ∨ name ∈ SharedTypes.names ∨ name = "Omit")
      ∧ ∀ type,
        ((∃ isRelation, TypeName.populate type
          ∈ TypeExpr.namesOfProperties (targetOptions type isRelation schema))
          ∨ ∃ spec ∈ ["S", "V"], TypeName.withPopulate type
            ∈ (selected type spec schema).names) →
        ∃ e ∈ schema.all, e.typeName = type ∧ e.populateAlias ∈ types.declarations
          ∧ e.payloadAlias schema ∈ types.declarations := by
  intro schema types
  rw [show types.declarations = typeDeclarations schema routes
    from declarations_typesModule ..]
  constructor
  · intro d hd
    rcases mem_append.1 hd with hd | hd
    · obtain ⟨e, he, hd⟩ := mem_flatMap.1 hd
      exact e.closed_declarations (Schema.declares_typesModule routes fingerprint) he
        (fun f hf t ht => Schema.exists_of_mem_types he hf ht) d hd
    · rw [freeNames_of_mem_namespaces routes hd]
      exact fun name hname => nomatch hname
  · intro type hreferred
    have hguard : schema.isPopulatable type = true := by
      rcases hreferred with ⟨isRelation, h⟩ | ⟨spec, hspec, h⟩
      · exact isPopulatable_of_mem_targetOptions h
      · exact isPopulatable_of_mem_selected hspec h
    obtain ⟨e, he, htype, hpopulatable⟩ := Schema.exists_of_isPopulatable hguard
    obtain ⟨-, hpopulate, hpayload⟩ := @mem_declarations_populate schema e hpopulatable
    exact ⟨e, he, htype, mem_typeDeclarations routes he hpopulate,
      mem_typeDeclarations routes he hpayload⟩

end TypedContent
