import TypedContent.Proofs.Output.PayloadNames

/-!
# Payload types

The payload type of an entity, evaluated at what is asked for, has the base
fields of the entity and the fields that the spec adds to them
(`Schema.payload_populates`).

A payload type refers to other payload types by name, so the proof is an
induction on how deep specs are nested (`Schema.Regular.eval_payload`). The
step (`Schema.Regular.payload_step`) takes the names for granted: `Knows`
says what the names of base interfaces and shared types stand for, and
`Populates` what the payload types stand for at the specs inside of the
given one. Below the step there is one lemma for each form of a type
expression.
-/

namespace TypedContent

open List TypeScript

variable {entries : List (String × FieldSpec)} {spec q : Spec} {name : String}
  {fields : Fields} {s : FieldSpec} {f : PopulatedField}

/-! ## Specs inside of specs -/

/-- The options for one variant of a zone. -/
def FieldSpec.variant? (spec : FieldSpec) (uid : String) : Option FieldSpec :=
  spec.on?.bind (·.lookup uid)

/-- A spec that the payload at a field is evaluated at. -/
inductive FieldSpec.Inside (q : Spec) : FieldSpec → Prop
  | populate {spec : FieldSpec} (h : spec.populate? = some q) : Inside q spec
  | variant {spec s : FieldSpec} {uid : String} (hs : spec.variant? uid = some s)
      (h : s.populate? = some q) :
      Inside q spec

/-- The payload of every entity at a spec is what the spec means. -/
def Populates (schema : Schema) (call : String → List Value → Option Value)
    (spec : Spec) : Prop :=
  ∀ e ∈ schema.all, e.isPopulatable = true →
    call (TypeName.withPopulate e.typeName) [spec.value]
      = some (.object (e.baseFields ++ spec.added schema e))

theorem depth_le_entriesDepth (h : entries.lookup name = some s) :
    s.depth ≤ entriesDepth entries := by
  induction entries with
  | nil => cases h
  | cons entry entries ih =>
    obtain ⟨other, s'⟩ := entry
    rw [lookup_entry_cons] at h
    rw [entriesDepth]
    split at h
    · obtain rfl := Option.some.inj h
      exact Nat.le_max_left _ _
    · exact Nat.le_trans (ih h) (Nat.le_max_right _ _)

theorem FieldSpec.depth_populate? (h : s.populate? = some q) : q.depth + 1 = s.depth := by
  cases s with
  | plain => cases h
  | options fields populate filters sort pagination =>
    obtain rfl : populate = some q := h
    rfl
  | variants on => cases h

theorem FieldSpec.Inside.depth_lt (h : s.Inside q) : q.depth < s.depth := by
  cases h with
  | populate h => exact Nat.le_of_eq (FieldSpec.depth_populate? h)
  | variant hs h =>
    cases s with
    | variants on =>
      have hle := depth_le_entriesDepth hs
      rw [← FieldSpec.depth_populate? h] at hle
      exact Nat.lt_of_succ_le hle
    | _ => cases hs

/-! ## Lookups -/

/-- Looking up after a function was applied to the value of every entry. -/
theorem lookup_entries {β : Type} {f : List (String × FieldSpec) → List (String × β)}
    {g : FieldSpec → β} (hnil : f [] = [])
    (hcons : ∀ name s entries, f ((name, s) :: entries) = (name, g s) :: f entries)
    (entries : List (String × FieldSpec)) (name : String) :
    (f entries).lookup name = (entries.lookup name).map g := by
  induction entries with
  | nil => rw [hnil]; rfl
  | cons entry entries ih =>
    obtain ⟨other, s⟩ := entry
    rw [hcons, lookup_entry_cons, lookup_entry_cons, ih]
    split <;> rfl

theorem lookup_entryValues (entries : List (String × FieldSpec)) (name : String) :
    (entryValues entries).lookup name = (entries.lookup name).map FieldSpec.value :=
  lookup_entries rfl (fun _ _ _ => rfl) entries name

theorem lookup_fieldValues (schema : Schema) (entries : List (String × FieldSpec))
    (name : String) :
    (fieldValues schema entries).lookup name = (entries.lookup name).map fun s =>
      PopulatedField.deep schema s.wanted (s.shape schema) (s.variantShapes schema) :=
  lookup_entries rfl (fun _ _ _ => rfl) entries name

theorem FieldSpec.lookup_variantShapes (schema : Schema) (spec : FieldSpec)
    (uid : String) :
    (spec.variantShapes schema).lookup uid
      = (spec.variant? uid).map (·.shape schema) := by
  cases spec with
  | variants on =>
    exact lookup_entries (f := entryShapes schema) rfl (fun _ _ _ => rfl) on uid
  | _ => rfl

/-- Matching options by name with a pattern that has one of the names. -/
theorem match?_entry (entries : List (String × FieldSpec)) (name x : String) :
    (Value.object [(name, .hole x)]).match? (Value.object (entryValues entries)).members
      = (entries.lookup name).map fun s => [(x, s.value)] := by
  rw [Value.match?_field (Value.isAtom_object _), Value.field?, lookup_entryValues]
  cases entries.lookup name with
  | none => rfl
  | some s =>
    have hmembers : s.value.members = [s.value] := s.isAtom_value
    simp [hmembers, Value.match?, Value.ofMembers]

/-! ## Distinct fields -/

/-- The names of the fields that have a value. -/
theorem Entity.fieldsWith_sublist (value : PopulatedField → Option Value) (e : Entity) :
    ((e.fieldsWith value).map Prod.fst).Sublist
      (e.populatedFields.map PopulatedField.name) := by
  unfold Entity.fieldsWith
  induction e.populatedFields with
  | nil => exact .slnil
  | cons f fs ih =>
    cases hvalue : value f with
    | none => simpa [hvalue] using ih.cons f.name
    | some v => simpa [hvalue] using ih

theorem Entity.fieldsWith_of_not_populatable {e : Entity} (h : e.isPopulatable = false)
    (value : PopulatedField → Option Value) : e.fieldsWith value = [] := by
  have hempty : e.populatedFields = [] := by
    simpa [isPopulatable, populatedFields, and_assoc] using h
  rw [fieldsWith, hempty]
  rfl

theorem narrow_sublist (wanted : Option (List String)) (fields : Fields) :
    (narrow wanted fields).Sublist fields := by
  cases wanted with
  | none => exact .refl fields
  | some names => exact filter_sublist

theorem filter_others {added : Fields} (h : ((fields ++ added).map Prod.fst).Nodup) :
    (fields ++ added).filter (fun field => decide (field.1 ∉ fields.map Prod.fst))
      = added := by
  rw [map_append, nodup_append] at h
  have hfields :
      fields.filter (fun field => decide (field.1 ∉ fields.map Prod.fst)) = [] := by
    rw [filter_eq_nil_iff]
    intro field hfield
    simpa using ⟨field.2, hfield⟩
  have hadded :
      added.filter (fun field => decide (field.1 ∉ fields.map Prod.fst)) = added := by
    rw [filter_eq_self]
    intro field hfield
    exact decide_eq_true fun hmem => h.2.2 _ hmem _ (mem_map_of_mem hfield) rfl
  rw [filter_append, hfields, hadded, nil_append]

section Distinct

variable {schema : Schema} (h : schema.Regular) {e : Entity} (he : e ∈ schema.all)

include h he

/-- No field of an entity has the name of another one, identity fields
included. -/
theorem Schema.Regular.names_nodup :
    (e.baseFields.map Prod.fst ++ e.populatedFields.map PopulatedField.name).Nodup := by
  have hidentity : (e.identityValues.map Prod.fst).Sublist systemFields := by
    unfold Entity.identityValues
    split <;> decide
  have hnames : e.baseFields.map Prod.fst ++ e.populatedFields.map PopulatedField.name
      = e.identityValues.map Prod.fst ++ e.fieldNames := by
    rw [Entity.baseFields, Entity.fieldNames, map_append, map_map, append_assoc]
    rfl
  have hsystem : systemFields.Nodup := by decide
  rw [hnames, nodup_append]
  refine ⟨hidentity.nodup hsystem, h.fields e he, ?_⟩
  rintro name hname _ hfield rfl
  exact h.identity e he name hfield (hidentity.subset hname)

theorem Schema.Regular.baseFields_nodup : (e.baseFields.map Prod.fst).Nodup :=
  (nodup_append.1 (h.names_nodup he)).1

theorem Schema.Regular.fields_nodup (hfields : fields.Sublist e.baseFields)
    (value : PopulatedField → Option Value) :
    ((fields ++ e.fieldsWith value).map Prod.fst).Nodup := by
  rw [map_append]
  exact ((hfields.map Prod.fst).append (e.fieldsWith_sublist value)).nodup
    (h.names_nodup he)

theorem Schema.Regular.findByTypeName? : schema.findByTypeName? e.typeName = some e :=
  find?_of_mem h.distinct he

theorem Schema.Regular.baseFields_eq : schema.baseFields e.typeName = e.baseFields := by
  rw [Schema.baseFields, h.findByTypeName? he]
  rfl

theorem Schema.Regular.isPopulatable_eq :
    schema.isPopulatable e.typeName = e.isPopulatable := by
  rw [Schema.isPopulatable, h.findByTypeName? he]
  rfl

theorem Schema.Regular.shape_eq (s : FieldSpec) :
    s.shape schema e.typeName
      = narrow s.wanted e.baseFields
        ++ (s.populate?.map fun q => q.added schema e).getD [] := by
  cases s with
  | options fields populate filters sort pagination =>
    have hshape : (FieldSpec.options fields populate filters sort pagination).shape
        schema e.typeName
        = narrow fields (schema.baseFields e.typeName)
          ++ (populate.bind fun q => (schema.findByTypeName? e.typeName).map
            (q.added schema)).getD [] := by
      cases populate <;> rfl
    rw [hshape, h.baseFields_eq he, h.findByTypeName? he]
    cases populate <;> rfl
  | _ =>
    change schema.baseFields e.typeName = e.baseFields ++ []
    rw [h.baseFields_eq he, append_nil]

theorem Schema.Regular.shape_nodup (s : FieldSpec) :
    ((s.shape schema e.typeName).map Prod.fst).Nodup := by
  rw [h.shape_eq he]
  cases s.populate? with
  | none =>
    rw [Option.map_none, Option.getD_none, append_nil]
    exact ((narrow_sublist _ _).map Prod.fst).nodup (h.baseFields_nodup he)
  | some q => exact h.fields_nodup he (narrow_sublist _ _) _

end Distinct

/-! ## Lists and tags -/

section Shapes

variable {value : Value} {call : String → List Value → Option Value} {env : Env}
  {type : TypeExpr}

theorem eval_oneOrMany (htype : evalWith call env type = some value) (isMany : Bool) :
    evalWith call env (oneOrMany type isMany) = some (manyOf value isMany) := by
  cases isMany with
  | true =>
    change (evalWith call env type).map Value.array = _
    rw [htype]
    rfl
  | false =>
    change (evalTypes call env [type, .null]).map Value.unionOf = _
    rw [evalTypes, htype]
    rfl

theorem eval_singleProperty (htype : evalWith call env type = some value)
    (name : String) :
    evalWith call env (singleProperty name type) = some (.object [(name, value)]) := by
  change (evalProperties call env [.required name type]).map Value.object = _
  rw [Property.required, evalProperties, htype]
  rfl

theorem eval_taggedVariant (htype : evalWith call env type = some (.object fields))
    (hnodup : (fields.map Prod.fst).Nodup) (uid : String) :
    evalWith call env (taggedVariant type uid) = some (tagged fields uid) := by
  have htypes : evalTypes call env [type, .object [.required "__component" (.text uid)]]
      = some ([fields, [("__component", .text uid)]].map .object) := by
    rw [evalTypes, htype]
    rfl
  have hfields : Value.mergeFields [] fields = fields := Value.mergeFields_of_nodup hnodup
  rw [taggedVariant, evalWith, htypes, Option.map_some, Value.intersectionOf_objects,
    foldl_cons, hfields]
  rfl

end Shapes

/-! ## Names -/

/-- Only variables of payload types have values. -/
def Local (env : Env) : Prop :=
  ∀ name ∈ env.map Prod.fst, name ∈ payloadVariables

theorem Local.lookup_eq_none {env : Env} (hlocal : Local env)
    (hname : name ∉ payloadVariables) :
    env.lookup name = none := by
  rw [lookup_eq_none_iff]
  intro entry hentry
  have hne : name ≠ entry.1 := fun heq => hname (heq ▸ hlocal _ (mem_map_of_mem hentry))
  simpa using hne

theorem Local.cons {env : Env} (hlocal : Local env) (hname : name ∈ payloadVariables)
    (value : Value) : Local ((name, value) :: env) := by
  intro other hother
  rcases mem_cons.1 hother with rfl | hother
  · exact hname
  · exact hlocal other hother

section Evaluation

variable {x : String}

variable {schema : Schema} (h : schema.Regular)
  {call : String → List Value → Option Value}
  (knows : Knows schema call) {env : Env} (hlocal : Local env)

include h knows hlocal

theorem Schema.Regular.eval_base {e : Entity} (he : e ∈ schema.all) :
    evalWith call env (.ref e.typeName) = some (.object e.baseFields) := by
  have hfree : e.typeName ∉ payloadVariables :=
    fun hmem => h.unreserved e he (mem_append_left _ hmem)
  rw [evalWith_free (hlocal.lookup_eq_none hfree), knows.base e he]

omit h in
theorem Knows.eval_media :
    evalWith call env (.ref "MediaFile") = some (.object mediaFields) := by
  rw [evalWith_free (hlocal.lookup_eq_none (by decide)), knows.media]

/-! ## Fields without options -/

theorem Schema.Regular.eval_oneLevel
    (hresolves : ∀ t ∈ f.types, ∃ e ∈ schema.all, e.typeName = t) :
    evalWith call env f.oneLevel = some (f.shallow schema) := by
  cases f with
  | target name type isMany isRelation =>
    obtain ⟨e, he, rfl⟩ := hresolves type (mem_singleton.2 rfl)
    rw [PopulatedField.shallow, h.baseFields_eq he]
    exact eval_oneOrMany (h.eval_base knows hlocal he) isMany
  | media name isMany => exact eval_oneOrMany (knows.eval_media hlocal) isMany
  | zone z =>
    have hvariants : evalTypes call env
        (z.variants.map fun v => taggedVariant (.ref v.componentType) v.uid)
        = some (z.variants.map fun v =>
          tagged (schema.baseFields v.componentType) v.uid) := by
      refine evalTypes_map fun v hv => ?_
      obtain ⟨e, he, htype⟩ := hresolves v.componentType (mem_map_of_mem hv)
      rw [← htype, h.baseFields_eq he]
      exact eval_taggedVariant (h.eval_base knows hlocal he) (h.baseFields_nodup he) v.uid
    rw [PopulatedField.oneLevel, evalWith, evalWith, hvariants]
    rfl

/-! ## Fields with options -/

/-- The payload of the target at the spec inside of the options, without
what the base type has. -/
theorem Schema.Regular.eval_populate {e : Entity} (he : e ∈ schema.all)
    (hpopulatable : e.isPopulatable = true) (hx : env.lookup x = some s.value)
    (hinside : ∀ q, s.populate? = some q → Populates schema call q) :
    evalWith call env (.conditional (.ref x) (singleProperty "populate" (.infer "Q"))
        (.generic "Omit" [.generic (TypeName.withPopulate e.typeName) [.ref "Q"],
          .keyof (.ref e.typeName)])
        .emptyObject)
      = some (.object ((s.populate?.map fun q => q.added schema e).getD [])) := by
  have hvariable : x ∈ payloadVariables := by
    by_contra hfree
    rw [hlocal.lookup_eq_none hfree] at hx
    cases hx
  have hmatch : (Value.object [("populate", .hole "Q")]).match? s.value.members
      = s.populate?.map fun q => [("Q", q.value)] := by
    rw [Value.match?_field s.isAtom_value, s.field?_populate]
    cases s.populate? <;> rfl
  refine evalWith_conditional_match hx s.isAtom_value rfl hmatch (fun q hq => ?_)
    (fun hnone => ?_)
    (Value.isAtom_object _)
  · have hlocal' : Local ([("Q", q.value)] ++ (x, s.value) :: env) :=
      (hlocal.cons hvariable _).cons (by decide) _
    have hpayload : evalWith call ([("Q", q.value)] ++ (x, s.value) :: env)
        (.generic (TypeName.withPopulate e.typeName) [.ref "Q"])
          = some (.object (e.baseFields ++ q.added schema e)) :=
      hinside q hq e he hpopulatable
    have hkeys : evalWith call ([("Q", q.value)] ++ (x, s.value) :: env)
        (.keyof (.ref e.typeName))
        = some (.oneOf (e.baseFields.map Prod.fst)) := by
      rw [evalWith, h.eval_base knows hlocal' he]
      rfl
    rw [hq, evalWith, evalTypes, hpayload, evalTypes, hkeys]
    refine (knows.others _ _).trans (congrArg (some ∘ Value.object) ?_)
    exact filter_others (h.fields_nodup he (.refl _) (q.fieldValue? schema))
  · rw [hnone]
    rfl

/-- What a target becomes under options. -/
theorem Schema.Regular.eval_selected {e : Entity} (he : e ∈ schema.all)
    (hx : env.lookup x = some s.value)
    (hinside : ∀ q, s.populate? = some q → Populates schema call q) :
    evalWith call env (selected e.typeName x schema)
      = some (.object (s.shape schema e.typeName)) := by
  have hselect : evalWith call env (selectFields e.typeName x)
      = some (.object (narrow s.wanted e.baseFields)) := by
    rw [selectFields, evalWith, evalTypes, h.eval_base knows hlocal he, evalTypes,
      evalWith_bound hx]
    exact knows.select e.baseFields s
  rw [selected, h.isPopulatable_eq he, h.shape_eq he]
  cases hpopulatable : e.isPopulatable with
  | true =>
    have hpopulate := h.eval_populate knows hlocal he hpopulatable hx hinside
    have hnodup : ([narrow s.wanted e.baseFields,
        (s.populate?.map fun q => q.added schema e).getD []].flatten.map
          Prod.fst).Nodup := by
      rw [flatten_cons, flatten_singleton, ← h.shape_eq he]
      exact h.shape_nodup he s
    rw [if_pos rfl, evalWith, evalTypes, hselect, evalTypes, hpopulate]
    refine congrArg some ((Value.intersectionOf_of_nodup hnodup).trans ?_)
    rw [flatten_cons, flatten_singleton]
  | false =>
    have hnone : (s.populate?.map fun q => q.added schema e).getD [] = [] := by
      cases s.populate? with
      | none => rfl
      | some q => exact e.fieldsWith_of_not_populatable hpopulatable _
    rw [if_neg Bool.false_ne_true, hselect, hnone, append_nil]

/-- What a variant of a zone becomes under the options for the zone. -/
theorem Schema.Regular.eval_variant {e : Entity} (he : e ∈ schema.all)
    (hS : env.lookup "S" = some s.value)
    (hinside : ∀ q, s.Inside q → Populates schema call q) (uid : String) :
    evalWith call env
      (.conditional (.ref "S") (singleProperty "on" (singleProperty uid (.infer "V")))
        (selected e.typeName "V" schema) (.ref e.typeName))
      = some (.object (((s.variant? uid).map fun s' => s'.shape schema).getD
        schema.baseFields e.typeName)) := by
  have hmatch : (Value.object [("on", .object [(uid, .hole "V")])]).match? s.value.members
      = (s.variant? uid).map fun s' => [("V", s'.value)] := by
    rw [Value.match?_field s.isAtom_value, s.field?_on, FieldSpec.variant?]
    cases s.on? with
    | none => rfl
    | some on => exact match?_entry on uid "V"
  have hlocal' : Local (("S", s.value) :: env) := hlocal.cons (by decide) _
  refine evalWith_conditional_match hS s.isAtom_value rfl hmatch (fun s' hs' => ?_)
    (fun hnone => ?_)
    (Value.isAtom_object _)
  · rw [hs']
    exact h.eval_selected knows (hlocal'.cons (by decide) _) he rfl fun q hq =>
      hinside q (.variant hs' hq)
  · rw [hnone, h.eval_base knows hlocal' he]
    exact congrArg (some ∘ Value.object) (h.baseFields_eq he).symm

theorem Schema.Regular.eval_nested
    (hresolves : ∀ t ∈ f.types, ∃ e ∈ schema.all, e.typeName = t)
    (hS : env.lookup "S" = some s.value)
    (hinside : ∀ q, s.Inside q → Populates schema call q) :
    evalWith call env (f.nested schema)
      = some (f.deep schema s.wanted (s.shape schema) (s.variantShapes schema)) := by
  cases f with
  | target name type isMany isRelation =>
    obtain ⟨e, he, rfl⟩ := hresolves type (mem_singleton.2 rfl)
    exact eval_oneOrMany (h.eval_selected knows hlocal he hS fun q hq =>
      hinside q (.populate hq)) isMany
  | media name isMany =>
    refine eval_oneOrMany ?_ isMany
    rw [selectFields, evalWith, evalTypes, knows.eval_media hlocal, evalTypes,
      evalWith_bound hS]
    exact knows.select mediaFields s
  | zone z =>
    rw [PopulatedField.nested, evalWith, evalWith, evalTypes_map fun v hv => ?_]
    · rfl
    · obtain ⟨e, he, htype⟩ := hresolves v.componentType (mem_map_of_mem hv)
      rw [s.lookup_variantShapes, ← htype]
      refine eval_taggedVariant (h.eval_variant knows hlocal he hS hinside v.uid) ?_ v.uid
      cases s.variant? v.uid with
      | none =>
        change ((schema.baseFields e.typeName).map Prod.fst).Nodup
        rw [h.baseFields_eq he]
        exact h.baseFields_nodup he
      | some s' => exact h.shape_nodup he s'

/-! ## Branches -/

/-- The base type together with one part for every field, which is there if
the field has a value. -/
theorem Schema.Regular.eval_withBase {e : Entity} (he : e ∈ schema.all)
    {part : PopulatedField → TypeExpr} {value : PopulatedField → Option Value}
    (hpart : ∀ f ∈ e.populatedFields,
      evalWith call env (part f) = some (.object (optionalField f.name (value f)))) :
    evalWith call env (withBase e.typeName (e.populatedFields.map part))
      = some (.object (e.baseFields ++ e.fieldsWith value)) := by
  have hparts : evalTypes call env (e.populatedFields.map part)
      = some ((e.populatedFields.map fun f => optionalField f.name (value f)).map
        .object) := by
    rw [map_map]
    exact evalTypes_map hpart
  have hflatten :
      (e.populatedFields.map fun f => optionalField f.name (value f)).flatten
        = e.fieldsWith value := by
    rw [← flatMap_def, Entity.fieldsWith, filterMap_eq_flatMap_toList]
    rfl
  have hnodup := h.fields_nodup he (.refl _) value
  rw [← hflatten, ← flatten_cons] at hnodup
  rw [withBase, evalWith, evalTypes, h.eval_base knows hlocal he, hparts]
  refine congrArg some ((Value.intersectionOf_of_nodup hnodup).trans ?_)
  rw [flatten_cons, hflatten]

theorem Schema.Regular.eval_ifListed
    (hresolves : ∀ t ∈ f.types, ∃ e ∈ schema.all, e.typeName = t)
    {names : List String} (hK : env.lookup "K" = some (.oneOf names)) :
    evalWith call env f.ifListed
      = some (.object (optionalField f.name
        (if f.name ∈ names then some (f.shallow schema) else none))) := by
  have hmatch := Value.match?_oneOf names f.name
  rw [PopulatedField.ifListed, evalWith_conditional_text]
  by_cases hmem : f.name ∈ names
  · rw [if_pos hmem] at hmatch ⊢
    rw [branch_matched (evalWith_bound hK) hmatch, nil_append]
    exact eval_singleProperty (h.eval_oneLevel knows hlocal hresolves) f.name
  · rw [if_neg hmem] at hmatch ⊢
    rw [branch_otherwise (evalWith_bound hK) hmatch]
    rfl

theorem Schema.Regular.eval_ifKeyed
    (hresolves : ∀ t ∈ f.types, ∃ e ∈ schema.all, e.typeName = t)
    (hP : env.lookup specParameter = some (Spec.keyed entries).value)
    (hinside : ∀ s, entries.lookup f.name = some s → ∀ q, s.Inside q →
      Populates schema call q) :
    evalWith call env (f.ifKeyed schema)
      = some (.object (optionalField f.name
        ((Spec.keyed entries).fieldValue? schema f))) := by
  have hvalue :
      (Spec.keyed entries).fieldValue? schema f = (entries.lookup f.name).map fun s =>
      f.deep schema s.wanted (s.shape schema) (s.variantShapes schema) := by
    rw [Spec.fieldValue?, lookup_fieldValues, Option.map_map]
    rfl
  have hlocal' : ∀ s : FieldSpec,
      Local (("S", s.value) :: (specParameter, (Spec.keyed entries).value) :: env) :=
    fun s => (hlocal.cons (by decide) _).cons (by decide) _
  refine evalWith_conditional_match hP
    (Spec.isAtom_value _) rfl (match?_entry entries f.name "S") (fun s hs => ?_)
    (fun hnone => ?_) (Value.isAtom_object _)
  · rw [hvalue, hs]
    exact eval_singleProperty
      (h.eval_nested knows (hlocal' s) hresolves rfl (hinside s hs)) f.name
  · rw [hvalue, hnone]
    rfl

end Evaluation

/-! ## Payloads -/

/-- A spec that a payload is evaluated at in the course of evaluating it at
the given one. -/
def Spec.Inside (q : Spec) (spec : Spec) : Prop :=
  ∃ entries name s, spec = .keyed entries ∧ entries.lookup name = some s ∧ s.Inside q

theorem Spec.Inside.depth_lt (h : q.Inside spec) : q.depth < spec.depth := by
  obtain ⟨entries, name, s, rfl, hlookup, hinside⟩ := h
  exact Nat.lt_of_lt_of_le hinside.depth_lt (depth_le_entriesDepth hlookup)

section Payload

variable {schema : Schema} (h : schema.Regular)

include h

/-- The branch of a wildcard: the base type and all fields. -/
theorem Schema.Regular.eval_wildcard {call : String → List Value → Option Value}
    (knows : Knows schema call) {env : Env} (hlocal : Local env) {e : Entity}
    (he : e ∈ schema.all) (isFlag : Bool) :
    evalWith call env (withBase e.typeName
      [.object (e.populatedFields.map fun f => .required f.name f.oneLevel)])
      = some (.object (e.baseFields ++ (Spec.everything isFlag).added schema e)) := by
  have hadded : (Spec.everything isFlag).added schema e
      = e.populatedFields.map fun f => (f.name, f.shallow schema) :=
    congrFun filterMap_eq_map e.populatedFields
  have hfields : evalProperties call env
      (e.populatedFields.map fun f => .required f.name f.oneLevel)
      = some ((Spec.everything isFlag).added schema e) := by
    rw [hadded]
    exact evalProperties_map fun f hf =>
      h.eval_oneLevel knows hlocal (h.resolves e he f hf)
  have hobject : evalWith call env
      (.object (e.populatedFields.map fun f => .required f.name f.oneLevel))
      = some (.object ((Spec.everything isFlag).added schema e)) := by
    rw [evalWith, hfields]
    rfl
  have hnodup :
      ([e.baseFields, (Spec.everything isFlag).added schema e].flatten.map
        Prod.fst).Nodup := by
    rw [flatten_cons, flatten_singleton]
    exact h.fields_nodup he (.refl _) _
  rw [withBase, evalWith, evalTypes, h.eval_base knows hlocal he, evalTypes, hobject]
  refine congrArg some ((Value.intersectionOf_of_nodup hnodup).trans ?_)
  rw [flatten_cons, flatten_singleton]

/-- The payload at a spec, where the payloads at the specs inside are
known. -/
theorem Schema.Regular.payload_step {call : String → List Value → Option Value}
    (knows : Knows schema call)
    (hinside : ∀ q : Spec, q.Inside spec → Populates schema call q) {e : Entity}
    (he : e ∈ schema.all) :
    evalWith call [(specParameter, spec.value)] (e.payload schema)
      = some (.object (e.baseFields ++ spec.added schema e)) := by
  have hP : ∀ env : Env, ((specParameter, spec.value) :: env).lookup specParameter
      = some spec.value := by
    intro env
    rw [lookup_entry_cons, if_pos rfl]
  have hbind : ∀ {env : Env}, Local env → Local ((specParameter, spec.value) :: env) :=
    fun hlocal => hlocal.cons (by decide) _
  have hlocal : Local [(specParameter, spec.value), (specParameter, spec.value)] :=
    hbind (hbind fun _ hname => nomatch hname)
  refine evalWith_conditional_atom (hP _) spec.isAtom_value ?_ (Value.isAtom_object _)
  cases spec with
  | everything isFlag =>
    have hmatch : (Value.union [.text "*", .literal (.bool true)]).match?
        (Spec.everything isFlag).value.members
        = some [] := by
      cases isFlag <;> rfl
    rw [branch_matched rfl hmatch]
    exact h.eval_wildcard knows hlocal he isFlag
  | listed names =>
    have hmatch :
        (Value.readonlyArray (.hole "K")).match? (Spec.listed names).value.members
        = some [("K", .oneOf names)] := by
      change some [("K", Value.ofMembers (names.map Value.text ++ []))] = _
      rw [append_nil, Value.ofMembers_texts]
    -- a list is no wildcard
    rw [branch_otherwise rfl rfl]
    refine evalWith_conditional_atom (hP _)
      (Spec.isAtom_value _) ?_ (Value.isAtom_object _)
    rw [branch_matched rfl hmatch]
    have hlocal' :
        Local ([("K", Value.oneOf names)]
          ++ List.replicate 3 (specParameter, (Spec.listed names).value)) :=
      (hbind hlocal).cons (by decide) _
    exact h.eval_withBase knows hlocal' he fun f hf =>
      h.eval_ifListed knows hlocal' (h.resolves e he f hf) rfl
  | keyed entries =>
    -- an object is neither a wildcard nor a list
    rw [branch_otherwise rfl rfl]
    refine evalWith_conditional_atom (hP _)
      (Spec.isAtom_value _) ?_ (Value.isAtom_object _)
    rw [branch_otherwise rfl rfl]
    refine evalWith_conditional_atom (hP _)
      (Spec.isAtom_value _) ?_ (Value.isAtom_object _)
    rw [branch_matched rfl rfl]
    exact h.eval_withBase knows (hbind (hbind hlocal)) he fun f hf =>
      h.eval_ifKeyed knows (hbind (hbind hlocal)) (h.resolves e he f hf) (hP _)
        fun s hs q hq => hinside q ⟨entries, f.name, s, rfl, hs, hq⟩

/-- The payload at a spec. Two levels are for the names that `Knows` is
about, and each level of the spec takes one more. -/
theorem Schema.Regular.eval_payload {s : Scope} (hs : schema.ServedBy s) (n : Nat) :
    ∀ spec : Spec, spec.depth + 2 ≤ n → ∀ e ∈ schema.all,
    evalWith (s.call predefined n) [(specParameter, spec.value)] (e.payload schema)
      = some (.object (e.baseFields ++ spec.added schema e)) := by
  induction n with
  | zero =>
    intro spec hdepth
    omega
  | succ n ih =>
    intro spec hdepth e he
    obtain ⟨m, rfl⟩ : ∃ m, n = m + 1 := Nat.exists_eq_add_of_le' (by omega)
    refine h.payload_step (hs.knows m) (fun q hq e' he' hpopulatable => ?_) he
    have hlt : q.depth < spec.depth := hq.depth_lt
    rw [hs.call_payload _ he' hpopulatable]
    exact ih q (by omega) e' he'

end Payload

/-- **Payload types compute what population means, where no name is declared
twice.** In the types module of an assembled schema with distinct type and
field names, the payload type of an entity, at any spec, has exactly the
base fields of the entity and the fields that the spec adds. All
declarations of the module count, so their names have to be distinct from
each other, from the shared ones and from those of the predefined types. -/
theorem Schema.payload_populates (components entities : List DeclaredEntity)
    (filter : Filter) (routes : RouteSet) (fingerprint : String)
    (hwell : (Schema.assemble components entities filter).WellNamed)
    (honce : ((typesModule (Schema.assemble components entities filter) routes
      fingerprint).typeNames ++ SharedTypes.names ++ payloadUtilities).Nodup)
    {e : Entity} (he : e ∈ (Schema.assemble components entities filter).all)
    (spec : Spec) {depth : Nat} (hdepth : spec.depth + 2 ≤ depth) :
    let schema := Schema.assemble components entities filter
    (typesScope schema routes fingerprint).eval depth [(specParameter, spec.value)]
      (e.payload schema)
      = some (.object (e.baseFields ++ spec.added schema e)) :=
  (Schema.regular_assemble hwell).eval_payload
    (Schema.servedBy_typesScope _ routes fingerprint honce) depth
    spec hdepth e he

/-! A schema of articles and their authors, with the portrait of an
article's author asked for. -/

def declaredArticle : DeclaredEntity :=
  { uid := "api::article.article", kind := .collection
    fields :=
      [{ name := "author", kind := "relation", relation := some "manyToOne",
         target := some "api::author.author" },
        { name := "title", kind := "string", isRequired := true }] }

def declaredAuthor : DeclaredEntity :=
  { uid := "api::author.author", kind := .collection
    fields :=
      [{ name := "born", kind := "date" },
        { name := "name", kind := "string", isRequired := true },
      { name := "portrait", kind := "media" }] }

def libraryArticle : Entity :=
  { uid := "api::article.article", typeName := "Article", kind := .collection,
    plugin := none
    attributes := [⟨"title", .string, true⟩]
    relations := [⟨"author", .manyToOne, "api::author.author", "Author", false⟩]
    media := [], components := [], zones := [] }

def libraryAuthor : Entity :=
  { uid := "api::author.author", typeName := "Author", kind := .collection, plugin := none
    attributes := [⟨"born", .date, false⟩, ⟨"name", .string, true⟩], relations := []
    media := [⟨"portrait", false, false⟩], components := [], zones := [] }

def library : Schema :=
  { entities := [libraryArticle, libraryAuthor], components := [] }

def authorWithPortrait : Spec :=
  .keyed
    [("author", .options (some ["name"]) (some (.listed ["portrait"])) none none none)]

theorem assemble_library :
    Schema.assemble [] [declaredArticle, declaredAuthor] {} = library := by
  simp only [Schema.assemble, DeclaredEntity.assemble, DeclaredEntity.keptFields,
    sortByKey_eq_insertionSort]
  decide +kernel

theorem payload_populates_library :
    let schema := Schema.assemble [] [declaredArticle, declaredAuthor] {}
    (typesScope schema {} "").eval 3 [(specParameter, authorWithPortrait.value)]
      (libraryArticle.payload schema)
      = some (.object (libraryArticle.baseFields
        ++ [("author", manyOf (.object [("id", .primitive .number),
          ("documentId", .primitive .string), ("name", .primitive .string),
          ("portrait", manyOf (.object mediaFields) false)]) false)])) := by
  intro schema
  have hwell : schema.WellNamed := by
    rw [show schema = library from assemble_library]
    exact ⟨by decide, by decide, by decide⟩
  have honce :
      ((typesModule schema {} "").typeNames ++ SharedTypes.names
        ++ payloadUtilities).Nodup := by
    rw [show schema = library from assemble_library]
    decide +kernel
  have harticle : libraryArticle ∈ schema.all := by
    rw [show schema = library from assemble_library]
    exact mem_cons_self
  refine (Schema.payload_populates [] [declaredArticle, declaredAuthor] {}
    {} "" hwell honce harticle
    authorWithPortrait (by decide)).trans ?_
  rw [assemble_library]
  rfl

/-! Components `shared.seo` and `shared.seo-input`, where what is sent for
one is called like the other. -/

def declaredSeo : DeclaredEntity :=
  { uid := "shared.seo", kind := .component, fields := [] }

def declaredSeoInput : DeclaredEntity :=
  { uid := "shared.seo-input", kind := .component, fields := [] }

def declaredPage : DeclaredEntity :=
  { uid := "api::page.page", kind := .collection
    fields :=
      [{ name := "seo", kind := "component", component := some "shared.seo-input" }] }

/-- An entity without fields. -/
def bareEntity (uid typeName : String) (kind : EntityKind) : Entity :=
  { uid, typeName, kind, plugin := none, attributes := [], relations := [], media := [],
    components := []
    zones := [] }

def seo : Entity :=
  bareEntity "shared.seo" "SharedSeo" .component

def seoInput : Entity :=
  bareEntity "shared.seo-input" "SharedSeoInput" .component

def seoPage : Entity :=
  { bareEntity "api::page.page" "Page" .collection with
    components := [⟨"seo", "shared.seo-input", "SharedSeoInput", false, false⟩] }

def seoSchema : Schema :=
  { entities := [seoPage], components := [seo, seoInput] }

theorem assemble_seo :
    Schema.assemble [declaredSeo, declaredSeoInput] [declaredPage] {} = seoSchema := by
  simp only [Schema.assemble, DeclaredEntity.assemble, DeclaredEntity.keptFields,
    sortByKey_eq_insertionSort]
  decide +kernel

theorem declared_seoInput :
    (typesScope seoSchema {} "").declared "SharedSeoInput"
      = [seo.inputInterface, seoInput.baseInterface] := by
  have hnamespaces : RouteSet.namespaces {} = [] := by
    simp [RouteSet.namespaces, RouteSet.owners, distinctBy]
  rw [Scope.declared, typesScope, declarations_typesModule, typeDeclarations, hnamespaces]
  rfl

/-- The payload of a page with everything has a type only if the component
of the page has one. -/
theorem eval_seoPage {call : String → List Value → Option Value}
    (h : call "SharedSeoInput" [] = none) :
    evalWith call [(specParameter, (Spec.everything true).value)]
      (seoPage.payload seoSchema) = none := by
  have hfields : ∀ env : Env, env.lookup "SharedSeoInput" = none →
      evalTypes call env [.object (seoPage.populatedFields.map fun f =>
        .required f.name f.oneLevel)] = none := by
    intro env henv
    change evalTypes call env
      [.object [.required "seo" (.nullable (.ref "SharedSeoInput"))]] = none
    simp [Property.required, evalProperties, TypeExpr.nullable, evalWith,
      evalTypes, henv, h]
  have hmembers :
      (Spec.everything true).value.members = [(Spec.everything true).value] := rfl
  refine (evalWith_conditional_bound rfl).trans ?_
  rw [hmembers, mapM_cons, branch_matched
    (p := .union [.text "*", .literal (.bool true)]) rfl rfl, withBase, evalWith,
    evalTypes, hfields _ rfl]
  cases evalWith call _ (.ref seoPage.typeName) <;> rfl

/-- All names are distinct as the schema has them, and the module declares
one of them twice. The two interfaces are then one with an optional `id`,
and no depth gives a page the fields it is meant to have. -/
theorem payload_reads_merged_interface :
    let schema := Schema.assemble [declaredSeo, declaredSeoInput] [declaredPage] {}
    schema.WellNamed ∧ seoPage ∈ schema.all ∧ seoPage.isPopulatable = true
      ∧ (typesScope schema {} "").declared "SharedSeoInput"
        = [seo.inputInterface, seoInput.baseInterface]
      ∧ ∀ depth, (typesScope schema {} "").eval depth
        [(specParameter, (Spec.everything true).value)]
          (seoPage.payload schema)
        ≠ some (.object (seoPage.baseFields
          ++ (Spec.everything true).added schema seoPage)) := by
  rw [assemble_seo]
  refine ⟨⟨by decide, by decide, by decide⟩,
    by decide, rfl, declared_seoInput, fun depth => ?_⟩
  have hmerged : (typesScope seoSchema {} "").call predefined depth "SharedSeoInput"
      [] = none := by
    cases depth with
    | zero => rfl
    | succ n =>
      rw [Scope.call, declared_seoInput]
      rfl
  rw [Scope.eval, eval_seoPage hmerged]
  exact (Option.some_ne_none _).symm

end TypedContent
