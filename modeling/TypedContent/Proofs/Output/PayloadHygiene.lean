import TypedContent.Proofs.Output.ClosedTypes
import TypedContent.Proofs.Output.Payload
import TypedContent.Proofs.TypeScript.NameReferences

/-!
# Type names and variables in payload types

A payload type has variables of its own: the parameter `P`, and `K`, `S`,
`V` and `Q`, which its patterns bind. The type names of a schema are written
among them, so an entity that is called like a variable is mistaken for it
wherever the variable is in scope. This file says exactly where that happens
(`payload_hygienic_iff`).

A name in a type does not show where it comes from. To tell, the type names
of a schema are *stamped* and the payload is built again: whatever is
stamped in it stands for an entity or a component, and taking the stamps off
gives the payload back, reference by reference (`references_stamped`).
`Entity.mentions` are the references with a stamp, each with the binders
around it.
-/

namespace TypedContent

open List

open TypeScript

/-! ## References in payload types -/

section References

variable (scope : List String)

theorem references_oneOrMany (item : TypeExpr) (isMany : Bool) :
    (oneOrMany item isMany).references scope = item.references scope := by
  cases isMany <;> simp [oneOrMany, TypeExpr.nullable, TypeExpr.null]

theorem references_taggedVariant (type : TypeExpr) (uid : String) :
    (taggedVariant type uid).references scope = type.references scope := by
  simp [taggedVariant, Property.required, Property.type, TypeExpr.text]

theorem references_singleProperty (name : String) (type : TypeExpr) :
    (singleProperty name type).references scope = type.references scope := by
  simp [singleProperty, Property.required, Property.type]

theorem references_selectFields (target spec : String) :
    (selectFields target spec).references scope
      = [⟨"SelectFields", scope⟩, ⟨target, scope⟩, ⟨spec, scope⟩] := by
  simp [selectFields]

theorem references_selected (target spec : String) (schema : Schema) :
    (selected target spec schema).references scope
      = [⟨"SelectFields", scope⟩, ⟨target, scope⟩, ⟨spec, scope⟩]
        ++ if schema.isPopulatable target then
          [⟨spec, scope⟩, ⟨"Omit", "Q" :: scope⟩,
            ⟨TypeName.withPopulate target, "Q" :: scope⟩, ⟨"Q", "Q" :: scope⟩,
            ⟨target, "Q" :: scope⟩]
        else [] := by
  unfold selected
  split
  · simp [references_selectFields, references_singleProperty, inferred_singleProperty,
      TypeExpr.inferred, TypeExpr.emptyObject]
  · simp [references_selectFields]

theorem PopulatedField.references_oneLevel (f : PopulatedField) :
    f.oneLevel.references scope
      = match f with
        | .target _ type _ _ => [⟨type, scope⟩]
        | .media _ _ => [⟨"MediaFile", scope⟩]
        | .zone z => z.variants.map fun v => ⟨v.componentType, scope⟩ := by
  cases f with
  | target name type isMany isRelation => simp [oneLevel, references_oneOrMany]
  | media name isMany => simp [oneLevel, references_oneOrMany]
  | zone z =>
    simp only [oneLevel, TypeExpr.references_array, TypeExpr.references_union,
      flatMap_map, references_taggedVariant, TypeExpr.references_ref]
    exact map_eq_flatMap.symm

theorem PopulatedField.references_nested (f : PopulatedField) (schema : Schema) :
    (f.nested schema).references scope
      = match f with
        | .target _ type _ _ => (selected type "S" schema).references scope
        | .media _ _ => (selectFields "MediaFile" "S").references scope
        | .zone z => z.variants.flatMap fun v =>
          ⟨"S", scope⟩ :: (selected v.componentType "V" schema).references ("V" :: scope)
            ++ [⟨v.componentType, scope⟩] := by
  cases f with
  | target name type isMany isRelation => simp [nested, references_oneOrMany]
  | media name isMany => simp [nested, references_oneOrMany]
  | zone z =>
    simp [nested, flatMap_map, references_taggedVariant, references_singleProperty,
      inferred_singleProperty, TypeExpr.inferred]

end References

theorem Entity.references_payload (e : Entity) (schema : Schema) :
    (e.payload schema).references ["P"]
      = [⟨"P", ["P"]⟩, ⟨e.typeName, ["P"]⟩]
        ++ e.populatedFields.flatMap (fun f => f.oneLevel.references ["P"])
        ++ [⟨"P", ["P"]⟩, ⟨e.typeName, ["K", "P"]⟩]
        ++ e.populatedFields.flatMap (fun f =>
          ⟨"K", ["K", "P"]⟩ :: f.oneLevel.references ["K", "P"])
        ++ [⟨"P", ["P"]⟩, ⟨e.typeName, ["P"]⟩]
        ++ e.populatedFields.flatMap (fun f =>
          ⟨"P", ["P"]⟩ :: (f.nested schema).references ["S", "P"])
        ++ [⟨e.typeName, ["P"]⟩] := by
  have hwildcard : wildcard.references ["P"] = [] ∧ wildcard.inferred = [] := by
    simp [wildcard, TypeExpr.text, TypeExpr.inferred, TypeExpr.inferredOfTypes]
  simp [payload, specParameter, withBase, hwildcard, flatMap_map, Property.required,
    Property.type, PopulatedField.ifListed, PopulatedField.ifKeyed,
    references_singleProperty, inferred_singleProperty, TypeExpr.inferred,
    TypeExpr.text, TypeExpr.emptyObject]

/-! ## Stamps -/

/-- A type name with a stamp in front. -/
def stamp (name : String) : String :=
  "@" ++ name

/-- The name without its stamp, if it has one. -/
def unstamp? (name : String) : Option String :=
  match name.toList with
  | '@' :: cs => some (String.ofList cs)
  | _ => none

@[simp] theorem unstamp?_stamp (name : String) : unstamp? (stamp name) = some name := by
  simp [unstamp?, stamp]

theorem stamp_injective : Function.Injective stamp := by
  intro a b h
  have hnames := congrArg unstamp? h
  rwa [unstamp?_stamp, unstamp?_stamp, Option.some.injEq] at hnames

@[simp] theorem withPopulate_stamp (name : String) :
    TypeName.withPopulate (stamp name) = stamp (TypeName.withPopulate name) :=
  String.append_assoc ..

namespace TypeScript.Reference

/-- The reference without its stamp, if it has one. -/
def unstamped? (r : Reference) : Option Reference :=
  (unstamp? r.name).map fun name => ⟨name, r.scope⟩

/-- The reference without its stamp. -/
def unstamped (r : Reference) : Reference :=
  r.unstamped?.getD r

@[simp] theorem unstamped?_stamp (name : String) (scope : List String) :
    unstamped? ⟨stamp name, scope⟩ = some ⟨name, scope⟩ := by
  simp [unstamped?]

theorem unstamped?_word {name : String} (h : unstamp? name = none) (scope : List String) :
    unstamped? ⟨name, scope⟩ = none := by
  simp [unstamped?, h]

@[simp] theorem unstamped_stamp (name : String) (scope : List String) :
    unstamped ⟨stamp name, scope⟩ = ⟨name, scope⟩ := by
  simp [unstamped]

theorem unstamped_word {name : String} (h : unstamp? name = none) (scope : List String) :
    unstamped ⟨name, scope⟩ = ⟨name, scope⟩ := by
  simp [unstamped, unstamped?_word h]

end TypeScript.Reference

/-! ## Stamped schemas -/

namespace PopulatedField

/-- The field with stamps on the type names that it leads to. -/
def stamped : PopulatedField → PopulatedField
  | target name type isMany isRelation => target name (stamp type) isMany isRelation
  | media name isMany => media name isMany
  | zone z =>
    zone { z with variants := z.variants.map fun v =>
                    { v with componentType := stamp v.componentType } }

end PopulatedField

namespace Entity

/-- The entity with stamps on its type name and on those that it refers
to. -/
def stamped (e : Entity) : Entity :=
  { e with
    typeName := stamp e.typeName
    relations := e.relations.map fun r => { r with targetType := stamp r.targetType }
    components :=
      e.components.map fun c => { c with componentType := stamp c.componentType }
    zones := e.zones.map fun z =>
      { z with variants := z.variants.map fun v =>
                 { v with componentType := stamp v.componentType } } }

theorem populatedFields_stamped (e : Entity) :
    e.stamped.populatedFields = e.populatedFields.map PopulatedField.stamped := by
  simp only [populatedFields, stamped, map_append, map_map]
  rfl

theorem isPopulatable_stamped (e : Entity) :
    e.stamped.isPopulatable = e.isPopulatable := by
  simp [isPopulatable, stamped]

end Entity

namespace Schema

/-- The schema with stamps on all type names. -/
def stamped (s : Schema) : Schema :=
  { entities := s.entities.map Entity.stamped,
    components := s.components.map Entity.stamped }

@[simp] theorem isPopulatable_stamped (s : Schema) (type : String) :
    s.stamped.isPopulatable (stamp type) = s.isPopulatable type := by
  have hname :
      ∀ e : Entity, (e.stamped.typeName == stamp type) = (e.typeName == type) := by
    intro e
    rw [Bool.eq_iff_iff, beq_iff_eq, beq_iff_eq]
    exact stamp_injective.eq_iff
  simp only [isPopulatable, findByTypeName?, all, stamped, ← map_append, find?_map,
    Function.comp_def, hname, Option.any_map, Entity.isPopulatable_stamped]

end Schema

/-! ## What a payload mentions -/

/-- What a choice of fields of a type mentions. -/
def selectedMentions (schema : Schema) (scope : List String)
    (type : String) : List Reference :=
  ⟨type, scope⟩ :: if schema.isPopulatable type then
    [⟨TypeName.withPopulate type, "Q" :: scope⟩, ⟨type, "Q" :: scope⟩] else []

namespace PopulatedField

/-- What a field that is populated without options mentions. -/
def oneLevelMentions (f : PopulatedField) (scope : List String) : List Reference :=
  f.types.map fun type => ⟨type, scope⟩

/-- What a field that is populated with options mentions. -/
def nestedMentions (f : PopulatedField) (schema : Schema)
    (scope : List String) : List Reference :=
  match f with
  | target _ type _ _ => selectedMentions schema scope type
  | media _ _ => []
  | zone z => z.variants.flatMap fun v =>
    selectedMentions schema ("V" :: scope) v.componentType ++ [⟨v.componentType, scope⟩]

end PopulatedField

namespace Entity

/-- The references of the payload of an entity, with stamps on those that
stand for an entity or a component. -/
def stampedReferences (e : Entity) (schema : Schema) : List Reference :=
  (e.stamped.payload schema.stamped).references [specParameter]

/-- The references in the payload of an entity that stand for an entity or a
component. -/
def mentions (e : Entity) (schema : Schema) : List Reference :=
  (e.stampedReferences schema).filterMap Reference.unstamped?

end Entity

/-! The words `P`, `K`, `S`, `V`, `Q`, `SelectFields`, `Omit` and
`MediaFile` have no stamp: which references of a stamped payload have one is
a matter of computation. -/

section Unstamped

open Reference

variable (schema : Schema) (scope : List String)

theorem filterMap_selected_stamped (type : String) {spec : String}
    (hspec : unstamp? spec = none) :
    ((selected (stamp type) spec schema.stamped).references scope).filterMap unstamped?
      = selectedMentions schema scope type := by
  rw [references_selected, Schema.isPopulatable_stamped, withPopulate_stamp,
    selectedMentions]
  split <;> simp (disch := first | exact hspec | decide) [filterMap_cons, unstamped?_word]

theorem map_selected_stamped (type : String) {spec : String}
    (hspec : unstamp? spec = none) :
    ((selected (stamp type) spec schema.stamped).references scope).map unstamped
      = (selected type spec schema).references scope := by
  rw [references_selected, references_selected, Schema.isPopulatable_stamped,
    withPopulate_stamp]
  split <;> simp (disch := first | exact hspec | decide) [unstamped_word]

theorem PopulatedField.filterMap_oneLevel_stamped (f : PopulatedField) :
    (f.stamped.oneLevel.references scope).filterMap unstamped?
      = f.oneLevelMentions scope := by
  rw [references_oneLevel, oneLevelMentions]
  cases f with
  | target name type isMany isRelation => simp [stamped, types]
  | media name isMany => simp (disch := decide) [stamped, types, unstamped?_word]
  | zone z => simp [stamped, types, filterMap_map, Function.comp_def]

theorem PopulatedField.map_oneLevel_stamped (f : PopulatedField) :
    (f.stamped.oneLevel.references scope).map unstamped
      = f.oneLevel.references scope := by
  rw [references_oneLevel, references_oneLevel]
  cases f with
  | target name type isMany isRelation => simp [stamped]
  | media name isMany => simp (disch := decide) [stamped, unstamped_word]
  | zone z => simp [stamped, Function.comp_def]

theorem PopulatedField.filterMap_nested_stamped (f : PopulatedField) :
    ((f.stamped.nested schema.stamped).references scope).filterMap unstamped?
      = f.nestedMentions schema scope := by
  rw [references_nested]
  cases f with
  | target name type isMany isRelation =>
    exact filterMap_selected_stamped schema scope type (by decide)
  | media name isMany => simp (disch := decide) [stamped, nestedMentions,
    references_selectFields, unstamped?_word]
  | zone z =>
    have hvariant := fun type =>
      filterMap_selected_stamped schema ("V" :: scope) type
        (show unstamp? "V" = none by decide)
    simp (disch := decide) [stamped, nestedMentions, flatMap_map, filterMap_flatMap,
      filterMap_cons, hvariant, unstamped?_word]

theorem PopulatedField.map_nested_stamped (f : PopulatedField) :
    ((f.stamped.nested schema.stamped).references scope).map unstamped
      = (f.nested schema).references scope := by
  rw [references_nested, references_nested]
  cases f with
  | target name type isMany isRelation =>
    exact map_selected_stamped schema scope type (by decide)
  | media name isMany =>
    simp (disch := decide) [stamped, references_selectFields, unstamped_word]
  | zone z =>
    have hvariant := fun type => map_selected_stamped schema ("V" :: scope) type
      (show unstamp? "V" = none by decide)
    simp (disch := decide) [stamped, flatMap_map, map_flatMap, hvariant, unstamped_word]

/-- Without the stamps, the payload has the references that it has. -/
theorem Entity.references_stamped (e : Entity) :
    (e.stampedReferences schema).map unstamped
      = (e.payload schema).references [specParameter] := by
  rw [stampedReferences, specParameter, references_payload, references_payload,
    populatedFields_stamped]
  simp (disch := decide) [flatMap_map, map_flatMap, PopulatedField.map_oneLevel_stamped,
    PopulatedField.map_nested_stamped, unstamped_word, stamped]

theorem Entity.mentions_eq (e : Entity) :
    e.mentions schema
      = [⟨e.typeName, ["P"]⟩] ++ e.populatedFields.flatMap (·.oneLevelMentions ["P"])
        ++ [⟨e.typeName, ["K", "P"]⟩]
          ++ e.populatedFields.flatMap (·.oneLevelMentions ["K", "P"])
        ++ [⟨e.typeName, ["P"]⟩] ++ e.populatedFields.flatMap
          (·.nestedMentions schema ["S", "P"])
        ++ [⟨e.typeName, ["P"]⟩] := by
  rw [mentions, stampedReferences, specParameter, references_payload,
    populatedFields_stamped]
  simp (disch := decide) [flatMap_map, filterMap_flatMap, filterMap_cons,
    PopulatedField.filterMap_oneLevel_stamped,
    PopulatedField.filterMap_nested_stamped, stamped]

end Unstamped

/-! ## Mentioned names -/

section Mentioned

variable {schema : Schema} {m : Reference}

/-- The reference names a type, or the payload type of a type that can be
populated. -/
def Schema.Mentions (schema : Schema) (type : String) (m : Reference) : Prop :=
  m.name = type ∨ (schema.isPopulatable type = true ∧ m.name = TypeName.withPopulate type)

theorem mentions_of_mem_selectedMentions {scope : List String} {type : String}
    (h : m ∈ selectedMentions schema scope type) : schema.Mentions type m := by
  unfold selectedMentions at h
  split at h
  · rename_i hguard
    simp only [mem_cons, not_mem_nil, or_false] at h
    rcases h with rfl | rfl | rfl
    · exact .inl rfl
    · exact .inr ⟨hguard, rfl⟩
    · exact .inl rfl
  · obtain rfl := mem_singleton.1 h
    exact .inl rfl

theorem PopulatedField.exists_of_mem_oneLevelMentions {f : PopulatedField}
    {scope : List String} (h : m ∈ f.oneLevelMentions scope) :
    ∃ type ∈ f.types, schema.Mentions type m := by
  obtain ⟨type, htype, rfl⟩ := mem_map.1 h
  exact ⟨type, htype, .inl rfl⟩

theorem PopulatedField.exists_of_mem_nestedMentions {f : PopulatedField}
    {scope : List String} (h : m ∈ f.nestedMentions schema scope) :
    ∃ type ∈ f.types, schema.Mentions type m := by
  cases f with
  | target name type isMany isRelation =>
    exact ⟨type, mem_singleton.2 rfl, mentions_of_mem_selectedMentions h⟩
  | media name isMany => cases h
  | zone z =>
    obtain ⟨v, hv, h⟩ := mem_flatMap.1 h
    refine ⟨v.componentType, mem_map_of_mem hv, ?_⟩
    rcases mem_append.1 h with h | h
    · exact mentions_of_mem_selectedMentions h
    · obtain rfl := mem_singleton.1 h
      exact .inl rfl

theorem Entity.exists_of_mem_mentions {e : Entity} (h : m ∈ e.mentions schema) :
    m.name = e.typeName ∨ ∃ f ∈ e.populatedFields, ∃ type ∈ f.types,
      schema.Mentions type m := by
  rw [mentions_eq] at h
  simp only [mem_append, mem_singleton, mem_flatMap] at h
  rcases h with (((((rfl | ⟨f, hf, h⟩) | rfl) | ⟨f, hf, h⟩) | rfl) | ⟨f, hf, h⟩) | rfl
  · exact .inl rfl
  · exact .inr ⟨f, hf, f.exists_of_mem_oneLevelMentions h⟩
  · exact .inl rfl
  · exact .inr ⟨f, hf, f.exists_of_mem_oneLevelMentions h⟩
  · exact .inl rfl
  · exact .inr ⟨f, hf, f.exists_of_mem_nestedMentions h⟩
  · exact .inl rfl

end Mentioned

/-! ## Capture -/

/-- No binder around the reference has its name. -/
def TypeScript.Reference.IsFree (r : Reference) : Prop :=
  r.name ∉ r.scope

namespace PopulatedField

/-- The variables around a type that the options for a field are applied
to. -/
def optionVariables : PopulatedField → List String
  | target .. | media .. => ["S", "P"]
  | zone _ => ["V", "S", "P"]

/-- The variables that a type of a field is mentioned under. -/
def variablesAround (f : PopulatedField) (schema : Schema)
    (type : String) : List String :=
  "K" :: (f.optionVariables ++ if schema.isPopulatable type then ["Q"] else [])

end PopulatedField

/-- No type that the payload of an entity mentions is called like a variable
that it is mentioned under. -/
structure Entity.NamesApart (e : Entity) (schema : Schema) : Prop where
  base : e.typeName ∉ ["K", "P"]
  fields : ∀ f ∈ e.populatedFields, ∀ type ∈ f.types, type ∉ f.variablesAround schema type

section Capture

variable {schema : Schema}

theorem withPopulate_notMem_payloadVariables (type : String) :
    TypeName.withPopulate type ∉ payloadVariables := by
  intro hmem
  have hshort : ∀ v ∈ payloadVariables, v.length = 1 := by decide
  have hlength := hshort _ hmem
  have hsuffix : "WithPopulate".length = 12 := rfl
  rw [TypeName.withPopulate, String.length_append] at hlength
  omega

theorem PopulatedField.variablesAround_subset (f : PopulatedField) (schema : Schema)
    (type : String) :
    f.variablesAround schema type ⊆ payloadVariables := by
  unfold variablesAround
  cases f <;> split <;> simp [optionVariables, payloadVariables]

/-- The variables are too short to capture the name of a payload type. -/
theorem isFree_selectedMentions {scope : List String}
    (hscope : "Q" :: scope ⊆ payloadVariables) (type : String) :
    (∀ m ∈ selectedMentions schema scope type, m.IsFree)
      ↔ type ∉ scope ++ if schema.isPopulatable type then ["Q"] else [] := by
  have hpayload : TypeName.withPopulate type ∉ "Q" :: scope := fun h =>
    withPopulate_notMem_payloadVariables type (hscope h)
  unfold selectedMentions
  split
  · rw [forall_mem_cons, forall_mem_cons, forall_mem_singleton]
    simp only [Reference.IsFree, hpayload, mem_append, mem_cons, not_mem_nil]
    tauto
  · simp [Reference.IsFree]

namespace PopulatedField

theorem isFree_oneLevelMentions (f : PopulatedField) (scope : List String) :
    (∀ m ∈ f.oneLevelMentions scope, m.IsFree) ↔ ∀ type ∈ f.types, type ∉ scope := by
  simp [oneLevelMentions, Reference.IsFree]

theorem isFree_nestedMentions (f : PopulatedField) :
    (∀ m ∈ f.nestedMentions schema ["S", "P"], m.IsFree)
      ↔ ∀ type ∈ f.types, type ∉ f.optionVariables ++ if schema.isPopulatable type then
        ["Q"] else [] := by
  cases f with
  | target name type isMany isRelation =>
    rw [nestedMentions, isFree_selectedMentions (by decide), types,
      forall_mem_singleton, optionVariables]
  | media name isMany => simp [nestedMentions, types]
  | zone z =>
    have hvariant : ∀ type : String,
        (∀ m ∈ selectedMentions schema ["V", "S", "P"] type
          ++ [⟨type, ["S", "P"]⟩], m.IsFree)
          ↔ type ∉ ["V", "S", "P"] ++ if schema.isPopulatable type then
            ["Q"] else [] := by
      intro type
      rw [forall_mem_append, isFree_selectedMentions (by decide), forall_mem_singleton,
        Reference.IsFree, and_iff_left_iff_imp]
      exact fun h hmem => h (mem_append_left _ (mem_cons_of_mem _ hmem))
    rw [nestedMentions, forall_mem_flatMap, types, forall_mem_map, optionVariables]
    exact forall₂_congr fun v _ => hvariant v.componentType

theorem isFree_mentions (f : PopulatedField) :
    ((∀ m ∈ f.oneLevelMentions ["P"], m.IsFree)
      ∧ (∀ m ∈ f.oneLevelMentions ["K", "P"], m.IsFree)
        ∧ ∀ m ∈ f.nestedMentions schema ["S", "P"], m.IsFree)
      ↔ ∀ type ∈ f.types, type ∉ f.variablesAround schema type := by
  have hspec : "P" ∈ f.optionVariables := by
    cases f <;> simp [optionVariables]
  rw [isFree_oneLevelMentions, isFree_oneLevelMentions,
    isFree_nestedMentions, ← forall₂_and, ← forall₂_and]
  refine forall₂_congr fun type _ => ?_
  have hne : type ∉ f.optionVariables → type ≠ "P" := fun h heq => h (heq ▸ hspec)
  simp only [variablesAround, mem_cons, mem_append, not_mem_nil]
  tauto

end PopulatedField

theorem Entity.isFree_mentions_iff (e : Entity) :
    (∀ m ∈ e.mentions schema, m.IsFree) ↔ e.NamesApart schema := by
  have hfields := forall₂_congr fun f (_ : f ∈ e.populatedFields) =>
    @PopulatedField.isFree_mentions schema f
  have hbase : (⟨e.typeName, ["K", "P"]⟩ : Reference).IsFree →
      (⟨e.typeName, ["P"]⟩ : Reference).IsFree :=
    fun h hmem => h (mem_cons_of_mem _ hmem)
  rw [mentions_eq]
  simp only [forall_mem_append, forall_mem_singleton, forall_mem_flatMap]
  constructor
  · rintro ⟨⟨⟨⟨⟨⟨-, hfirst⟩, hlist⟩, hlisted⟩, -⟩, hkeyed⟩, -⟩
    exact ⟨hlist, hfields.1 fun f hf => ⟨hfirst f hf, hlisted f hf, hkeyed f hf⟩⟩
  · rintro ⟨hlist, hapart⟩
    have hall := hfields.2 hapart
    exact ⟨⟨⟨⟨⟨⟨hbase hlist, fun f hf => (hall f hf).1⟩, hlist⟩,
      fun f hf => (hall f hf).2.1⟩, hbase hlist⟩,
      fun f hf => (hall f hf).2.2⟩, hbase hlist⟩

end Capture

/-- **Payload types mention types, not variables, where no type is called
like one.** In the types module of an assembled schema, the payload of an
entity that can be populated mentions only types that the module declares.
All its mentions stand for these types if and only if no type is called like
a variable that it is mentioned under, so at any rate if no type of the
schema is called `P`, `K`, `S`, `V` or `Q`. -/
theorem payload_hygienic_iff (components entities : List DeclaredEntity)
    (filter : Filter) (routes : RouteSet) (fingerprint : String) {e : Entity}
    (he : e ∈ (Schema.assemble components entities filter).all)
    (hpopulatable : e.isPopulatable = true) :
    let schema := Schema.assemble components entities filter
    let types := typesModule schema routes fingerprint
    e.payloadAlias schema ∈ types.declarations
      ∧ (e.stampedReferences schema).map Reference.unstamped
        = (e.payload schema).references [specParameter]
      ∧ (∀ m ∈ e.mentions schema, ∃ d ∈ schema.all,
        (m.name = d.typeName ∧ d.baseInterface ∈ types.declarations)
          ∨ (m.name = TypeName.withPopulate d.typeName
            ∧ d.payloadAlias schema ∈ types.declarations))
      ∧ ((∀ m ∈ e.mentions schema, m.IsFree) ↔ e.NamesApart schema)
      ∧ ((∀ d ∈ schema.all, d.typeName ∉ payloadVariables) → e.NamesApart schema) := by
  intro schema types
  rw [show types.declarations = typeDeclarations schema routes
    from declarations_typesModule ..]
  have hdeclared : ∀ {d : Entity},
      d ∈ schema.all → d.baseInterface ∈ typeDeclarations schema routes := fun hd =>
    mem_typeDeclarations routes hd (by simp [Entity.declarations])
  have htypes : ∀ f ∈ e.populatedFields, ∀ t ∈ f.types, schema.HasType t :=
    fun f hf t ht => Schema.exists_of_mem_types he hf ht
  refine ⟨mem_typeDeclarations routes he (mem_declarations_populate hpopulatable).2.2,
    e.references_stamped schema, ?_,
    e.isFree_mentions_iff, ?_⟩
  · intro m hm
    rcases Entity.exists_of_mem_mentions hm with hname
      | ⟨f, hf, t, ht, hname | ⟨hguard, hname⟩⟩
    · exact ⟨e, he, .inl ⟨hname, hdeclared he⟩⟩
    · obtain ⟨d, hd, rfl⟩ := htypes f hf t ht
      exact ⟨d, hd, .inl ⟨hname, hdeclared hd⟩⟩
    · obtain ⟨d, hd, rfl, hd'⟩ := Schema.exists_of_isPopulatable hguard
      exact ⟨d, hd, .inr
        ⟨hname, mem_typeDeclarations routes hd (mem_declarations_populate hd').2.2⟩⟩
  · intro hnames
    refine ⟨fun hmem => hnames e he (cons_subset.2 ⟨by decide, by decide⟩ hmem),
      fun f hf t ht hmem => ?_⟩
    obtain ⟨d, hd, rfl⟩ := htypes f hf t ht
    exact hnames d hd (f.variablesAround_subset schema _ hmem)

theorem payload_hygienic_library :
    libraryArticle ∈ (Schema.assemble [] [declaredArticle, declaredAuthor] {}).all
      ∧ libraryArticle.isPopulatable = true
      ∧ libraryArticle.mentions (Schema.assemble [] [declaredArticle, declaredAuthor] {})
        = [⟨"Article", ["P"]⟩, ⟨"Author", ["P"]⟩, ⟨"Article", ["K", "P"]⟩,
          ⟨"Author", ["K", "P"]⟩, ⟨"Article", ["P"]⟩,
          ⟨"Author", ["S", "P"]⟩, ⟨"AuthorWithPopulate", ["Q", "S", "P"]⟩,
            ⟨"Author", ["Q", "S", "P"]⟩,
          ⟨"Article", ["P"]⟩]
      ∧ ∀ m ∈ libraryArticle.mentions
        (Schema.assemble [] [declaredArticle, declaredAuthor] {}), m.IsFree := by
  have he :
      libraryArticle ∈ (Schema.assemble []
        [declaredArticle, declaredAuthor] {}).all := by
    rw [assemble_library]
    exact mem_cons_self
  have hpopulatable : libraryArticle.isPopulatable = true := rfl
  have hhygienic := payload_hygienic_iff [] [declaredArticle, declaredAuthor] {}
    (.ofDescriptors []) "" he hpopulatable
  obtain ⟨-, -, -, hfree, hplain⟩ := hhygienic
  refine ⟨he, hpopulatable, ?_, hfree.2 (hplain ?_)⟩
  · rw [assemble_library]
    decide +kernel
  · rw [assemble_library]
    decide +kernel

/-! Entities and a component that are called like the variables. -/

def declaredP : DeclaredEntity :=
  { uid := "api::p.p", kind := .collection
    fields :=
      [{ name := "key", kind := "relation", relation := some "oneToOne",
         target := some "api::k.k" },
        { name := "query", kind := "relation", relation := some "oneToOne",
          target := some "api::q.q" },
        { name := "spec", kind := "relation", relation := some "oneToOne",
          target := some "api::s.s" },
        { name := "views", kind := "dynamiczone", components := ["v"] }] }

def declaredK : DeclaredEntity :=
  { uid := "api::k.k", kind := .collection, fields := [] }

def declaredQ : DeclaredEntity :=
  { uid := "api::q.q", kind := .collection,
    fields := [{ name := "photo", kind := "media" }] }

def declaredS : DeclaredEntity :=
  { uid := "api::s.s", kind := .collection, fields := [] }

def declaredV : DeclaredEntity :=
  { uid := "v", kind := .component, fields := [] }

def entityP : Entity :=
  { bareEntity "api::p.p" "P" .collection with
    relations :=
      [⟨"key", .oneToOne, "api::k.k", "K", false⟩,
        ⟨"query", .oneToOne, "api::q.q", "Q", false⟩,
      ⟨"spec", .oneToOne, "api::s.s", "S", false⟩]
    zones := [⟨"views", [⟨"v", "V"⟩], false⟩] }

def variableSchema : Schema :=
  { entities := [bareEntity "api::k.k" "K" .collection, entityP,
      { bareEntity "api::q.q" "Q" .collection with media := [⟨"photo", false, false⟩] },
      bareEntity "api::s.s" "S" .collection]
    components := [bareEntity "v" "V" .component] }

theorem assemble_variables :
    Schema.assemble [declaredV] [declaredK, declaredP, declaredQ, declaredS] {}
      = variableSchema := by
  simp only [Schema.assemble, DeclaredEntity.assemble, DeclaredEntity.keptFields,
    sortByKey_eq_insertionSort]
  decide +kernel

/-- The payload of `P` takes each of the five types for a variable. What it
falls back to is then its argument, not the base type. -/
theorem payload_captures_variables :
    let schema :=
      Schema.assemble [declaredV] [declaredK, declaredP, declaredQ, declaredS] {}
    entityP ∈ schema.all ∧ entityP.isPopulatable = true
      ∧ (∀ v ∈ payloadVariables, ∃ m ∈ entityP.mentions schema, m.name = v ∧ ¬ m.IsFree)
      ∧ (typesScope schema {} "").eval 3 [(specParameter, .text "key")]
        (entityP.payload schema)
        = some (.text "key") := by
  rw [assemble_variables]
  have hcaptured : ∀ v ∈ payloadVariables, ∃ m ∈ entityP.mentions variableSchema,
      m.name = v ∧ v ∈ m.scope := by
    decide +kernel
  refine ⟨by decide, by decide, fun v hv => ?_, rfl⟩
  obtain ⟨m, hm, rfl, hscope⟩ := hcaptured v hv
  exact ⟨m, hm, rfl, fun hfree => hfree hscope⟩

end TypedContent
