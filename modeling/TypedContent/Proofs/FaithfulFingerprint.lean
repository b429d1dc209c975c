import TypedContent.Compile
import TypedContent.Proofs.Json.FaithfulEncodings
import TypedContent.Proofs.Json.Printing

/-!
# What a fingerprint tells

The text that a fingerprint is taken of determines the schema and the routes
(`hashed_text_determines_input`). It goes in two steps: the printed text
determines the value (`Value.render_injective`), and the canonical value
determines what was encoded, since every record of the schema and of the
routes is encoded faithfully. So inputs with the same fingerprint are the
same, and the same modules are generated from them, unless the digest itself
has a collision.
-/

namespace TypedContent

open List Json Json.Value

/-! ## Vocabularies -/

theorem EntityKind.name_injective : Function.Injective name := by
  intro k l h
  have hnames := congrArg ofName? h
  rwa [ofName?_name, ofName?_name, Option.some.injEq] at hnames

theorem Cardinality.name_injective : Function.Injective name := by
  intro c d h
  have hnames := congrArg ofName? h
  rwa [ofName?_name, ofName?_name, Option.some.injEq] at hnames

namespace ScalarType

/-- Only an enumeration has values. -/
theorem eq_enumeration_of_kind {t : ScalarType} (h : t.kind = "enumeration") :
    ∃ values, t = .enumeration values := by
  cases t with
  | enumeration values => exact ⟨values, rfl⟩
  | _ => simp [kind] at h

theorem values?_eq_none_of_kind {t : ScalarType} (h : t.kind ≠ "enumeration") :
    t.values? = none := by
  cases t with
  | enumeration values => exact absurd rfl h
  | _ => rfl

theorem eq_of_kind_eq {t u : ScalarType} (h : t.kind = u.kind)
    (hne : t.kind ≠ "enumeration") :
    t = u := by
  have ht := ofKind?_kind t
  have hu := ofKind?_kind u
  rw [values?_eq_none_of_kind hne, h] at ht
  rw [values?_eq_none_of_kind (h ▸ hne), ht] at hu
  exact Option.some.inj hu

end ScalarType

/-! ## Fields -/

/-- The names of the fields depend on the type here, so the fields are
compared one by one. -/
theorem Attribute.faithful_value : Faithful Attribute.value := by
  intro a b h
  have hnodup :
      ((("name", Value.string b.name) :: b.type.fields
        ++ [("required", Value.bool b.isRequired)]).map
      Prod.fst).Nodup := by
    cases b.type <;> simp [ScalarType.fields, ScalarType.values?]
  have hname : a.name = b.name :=
    faithful_string (canonical_field_eq h hnodup "name" (by simp) (by simp))
  have hrequired : a.isRequired = b.isRequired :=
    faithful_bool (canonical_field_eq h hnodup "required" (by simp) (by simp))
  have hkind : a.type.kind = b.type.kind :=
    faithful_string (canonical_field_eq h hnodup "type" (by simp [ScalarType.fields])
      (by simp [ScalarType.fields]))
  have htype : a.type = b.type := by
    by_cases henum : a.type.kind = "enumeration"
    · obtain ⟨values, ha⟩ := ScalarType.eq_enumeration_of_kind henum
      obtain ⟨values', hb⟩ := ScalarType.eq_enumeration_of_kind (hkind ▸ henum)
      have hvalues : values = values' :=
        faithful_string.list (canonical_field_eq h hnodup "values"
          (by simp [ha, ScalarType.fields, ScalarType.values?])
          (by simp [hb, ScalarType.fields, ScalarType.values?]))
      rw [ha, hb, hvalues]
    · exact ScalarType.eq_of_kind_eq hkind henum
  cases a
  cases b
  simp_all

theorem Relation.faithful_value : Faithful Relation.value := by
  intro a b h
  have hfields := canonical_fields_eq h rfl (by simp)
  simp only [map_cons, List.cons.injEq] at hfields
  obtain ⟨hname, hcardinality, htarget, htype, hrequired, -⟩ := hfields
  cases a
  cases b
  rw [Relation.mk.injEq]
  exact ⟨faithful_string hname, faithful_string.comp Cardinality.name_injective
    hcardinality, faithful_string htarget,
    faithful_string htype, faithful_bool hrequired⟩

theorem MediaField.faithful_value : Faithful MediaField.value := by
  intro a b h
  have hfields := canonical_fields_eq h rfl (by simp)
  simp only [map_cons, List.cons.injEq] at hfields
  obtain ⟨hname, hmultiple, hrequired, -⟩ := hfields
  cases a
  cases b
  rw [MediaField.mk.injEq]
  exact ⟨faithful_string hname, faithful_bool hmultiple, faithful_bool hrequired⟩

theorem ComponentField.faithful_value : Faithful ComponentField.value := by
  intro a b h
  have hfields := canonical_fields_eq h rfl (by simp)
  simp only [map_cons, List.cons.injEq] at hfields
  obtain ⟨hname, hcomponent, htype, hrepeatable, hrequired, -⟩ := hfields
  cases a
  cases b
  rw [ComponentField.mk.injEq]
  exact ⟨faithful_string hname, faithful_string hcomponent, faithful_string htype,
    faithful_bool hrepeatable,
    faithful_bool hrequired⟩

theorem ZoneVariant.faithful_value : Faithful ZoneVariant.value := by
  intro a b h
  have hfields := canonical_fields_eq h rfl (by simp)
  simp only [map_cons, List.cons.injEq] at hfields
  obtain ⟨huid, htype, -⟩ := hfields
  cases a
  cases b
  rw [ZoneVariant.mk.injEq]
  exact ⟨faithful_string huid, faithful_string htype⟩

theorem ZoneField.faithful_value : Faithful ZoneField.value := by
  intro a b h
  have hfields := canonical_fields_eq h rfl (by simp)
  simp only [map_cons, List.cons.injEq] at hfields
  obtain ⟨hname, hvariants, hrequired, -⟩ := hfields
  cases a
  cases b
  rw [ZoneField.mk.injEq]
  exact ⟨faithful_string hname, ZoneVariant.faithful_value.list hvariants,
    faithful_bool hrequired⟩

/-! ## Schemas and routes -/

theorem Entity.faithful_value : Faithful Entity.value := by
  intro a b h
  have hfields := canonical_fields_eq h rfl (by simp)
  simp only [map_cons, List.cons.injEq] at hfields
  obtain ⟨huid, hname, hkind, hplugin, hattributes, hrelations, hmedia, hcomponents,
      hzones, -⟩ := hfields
  cases a
  cases b
  rw [Entity.mk.injEq]
  exact ⟨faithful_string huid, faithful_string hname,
    faithful_string.comp EntityKind.name_injective hkind,
    faithful_optional hplugin, Attribute.faithful_value.list hattributes,
      Relation.faithful_value.list hrelations,
    MediaField.faithful_value.list hmedia, ComponentField.faithful_value.list hcomponents,
    ZoneField.faithful_value.list hzones⟩

theorem Schema.faithful_value : Faithful Schema.value := by
  intro a b h
  have hfields := canonical_fields_eq h rfl (by simp)
  simp only [map_cons, List.cons.injEq] at hfields
  obtain ⟨hentities, hcomponents, -⟩ := hfields
  cases a
  cases b
  rw [Schema.mk.injEq]
  exact ⟨Entity.faithful_value.list hentities, Entity.faithful_value.list hcomponents⟩

theorem EndpointTypes.faithful_value : Faithful EndpointTypes.value := by
  intro a b h
  have hfields := canonical_fields_eq h rfl (by simp)
  simp only [map_cons, List.cons.injEq] at hfields
  obtain ⟨hbody, hresponse, hparams, hquery, -⟩ := hfields
  cases a
  cases b
  rw [EndpointTypes.mk.injEq]
  exact ⟨faithful_optional hbody, faithful_optional hresponse,
    faithful_optional hparams, faithful_optional hquery⟩

theorem Route.faithful_value : Faithful Route.value := by
  intro a b h
  have hfields := canonical_fields_eq h rfl (by simp)
  simp only [map_cons, List.cons.injEq] at hfields
  obtain ⟨hmethod, hpath, hhandler, hcontroller, haction, hparams, hplugin,
      hprefix, -⟩ := hfields
  cases a
  cases b
  rw [Route.mk.injEq]
  exact ⟨faithful_string hmethod, faithful_string hpath, faithful_string hhandler,
    faithful_string hcontroller, faithful_string haction, faithful_string.list hparams,
    faithful_optional hplugin, faithful_optional hprefix⟩

theorem RouteSet.faithful_value : Faithful RouteSet.value := by
  intro a b h
  have hfields := canonical_fields_eq h rfl (by simp)
  simp only [map_cons, List.cons.injEq] at hfields
  obtain ⟨hroutes, htypes, -⟩ := hfields
  cases a
  cases b
  rw [RouteSet.mk.injEq]
  exact ⟨Route.faithful_value.list hroutes, EndpointTypes.faithful_value.map htypes⟩

/-! ## The text and its digest -/

theorem fingerprintText_eq_iff {schema schema' : Schema} {routes routes' : RouteSet} :
    fingerprintText schema routes = fingerprintText schema' routes'
      ↔ schema = schema' ∧ routes = routes' := by
  constructor
  · intro h
    have hfields := canonical_fields_eq (render_injective h) rfl (by simp)
    simp only [map_cons, List.cons.injEq] at hfields
    exact ⟨Schema.faithful_value hfields.1, RouteSet.faithful_value hfields.2.1⟩
  · rintro ⟨rfl, rfl⟩
    rfl

/-- Two texts that differ and have the same digest. -/
def Sha256.Collision (s t : String) : Prop :=
  s ≠ t ∧ hex s = hex t

/-- **The hashed text determines the input.** Two schemas with their routes
have the same text under the digest exactly if they are the same. So they
have the same fingerprint exactly if the two texts collide, or they are the
same and the same modules are generated from them under all settings. -/
theorem hashed_text_determines_input (schema schema' : Schema)
    (routes routes' : RouteSet) :
    (fingerprintText schema routes = fingerprintText schema' routes'
      ↔ schema = schema' ∧ routes = routes')
      ∧ (fingerprint schema routes = fingerprint schema' routes'
        ↔ Sha256.Collision (fingerprintText schema routes)
          (fingerprintText schema' routes')
          ∨ (schema = schema' ∧ routes = routes'
            ∧ ∀ settings, generate schema routes settings
              = generate schema' routes' settings)) := by
  refine ⟨fingerprintText_eq_iff, fun h => ?_, ?_⟩
  · by_cases htext : fingerprintText schema routes = fingerprintText schema' routes'
    · obtain ⟨rfl, rfl⟩ := fingerprintText_eq_iff.1 htext
      exact .inr ⟨rfl, rfl, fun _ => rfl⟩
    · exact .inl ⟨htext, h⟩
  · rintro (hcollision | ⟨rfl, rfl, -⟩)
    · exact hcollision.2
    · rfl

end TypedContent
