import TypedContent.Proofs.Schema.Assembly
import TypedContent.Proofs.Schema.DeclaredInterfaces

/-!
# Agreement of the front ends

A content model has the same schema whichever of its two forms is read
(`declarations_schema_eq`). Both readers arrive at what the entities of the
model declare: the declaration text in the order in which it was written,
the document in the order of its keys. Assembling forgets the order.
-/

namespace TypedContent

open List

/-! ## Documents -/

/-- An attribute is read back as what its field declares. -/
theorem ModelField.ofAttribute?_attributeValue (f : ModelField) :
    DeclaredField.ofAttribute? f.name f.attributeValue = some f.declared := by
  have htexts : ∀ texts : List String,
      Json.Value.texts? (some (.array (texts.map .string))) = some texts := by
    intro texts
    have hmap :
        (texts.map Json.Value.string).mapM Json.Value.text? = some (texts.map id) :=
      mapM_map_eq_some fun _ _ => rfl
    rwa [map_id] at hmap
  obtain ⟨name, form, isRequired, isPrivate⟩ := f
  cases form with
  | value type =>
    cases type with
    | enumeration values =>
      change (Json.Value.texts? (some (.array (values.map .string)))).bind
        (fun enumValues => some
          ({ name, kind := "enumeration", isRequired, isPrivate, enumValues } :
            DeclaredField)) = _
      rw [htexts]
      rfl
    | _ => rfl
  | relation kind target => cases target <;> rfl
  | component uid isRepeatable => rfl
  | zone uids =>
    change (Json.Value.texts? (some (.array (uids.map .string)))).bind
      (fun components => some
        ({ name, kind := "dynamiczone", isRequired, isPrivate, components } :
          DeclaredField)) = _
    rw [htexts]
    rfl
  | media isMultiple => rfl

namespace ModelEntity

variable {e : ModelEntity}

theorem declared_fields_nodup (h : e.Valid) :
    (e.declared.fields.map DeclaredField.name).Nodup := by
  have hname : ∀ f : ModelField, f.declared.name = f.name := by
    rintro ⟨name, form, isRequired, isPrivate⟩
    cases form <;> rfl
  have hnames :
      e.declared.fields.map DeclaredField.name = e.fields.map ModelField.name := by
    rw [declared, map_map]
    exact map_congr_left fun f _ => hname f
  rw [hnames]
  exact h.distinct

/-- A definition declares what its entity declares, up to the order of the
fields. -/
theorem sorted_declare_definition (h : e.Valid) :
    (e.definition.declare e.uid e.kind).sorted = e.declared.sorted := by
  have hkeys :
      ((e.fields.map fun f => (f.name, f.attributeValue)).map Prod.fst).Nodup := by
    rw [map_map]
    exact h.distinct
  have hread : (e.fields.map fun f => (f.name, f.attributeValue)).filterMap
      (fun entry => DeclaredField.ofAttribute? entry.1 entry.2) = e.declared.fields := by
    rw [filterMap_map]
    calc e.fields.filterMap _
        = e.fields.filterMap (some ∘ ModelField.declared) :=
          filterMap_congr fun f _ => f.ofAttribute?_attributeValue
      _ = e.fields.map ModelField.declared := by rw [filterMap_eq_map]
  have hfields : (e.definition.declare e.uid e.kind).fields.Perm e.declared.fields := by
    rw [← hread]
    exact (Keyed.entries_ofList_perm hkeys).filterMap _
  have hsorted : e.declared.sorted = (e.definition.declare e.uid e.kind).sorted :=
    DeclaredEntity.sorted_eq_of_perm rfl rfl hfields.symm (declared_fields_nodup h)
  exact hsorted.symm

end ModelEntity

namespace ContentModel

variable (m : ContentModel)

theorem uids_nodup_filter (p : ModelEntity → Bool) :
    ((m.entities.filter p).map ModelEntity.uid).Nodup :=
  (filter_sublist.map ModelEntity.uid).nodup m.uids

/-- The components that a document declares are those of the model. -/
theorem components_document_perm :
    ((m.document.components.entries.map fun (uid, definition) =>
      definition.declare uid .component).map
        DeclaredEntity.sorted).Perm
      ((m.components.map ModelEntity.declared).map DeclaredEntity.sorted) := by
  have hkeys :
      ((m.components.map fun e => (e.uid, e.definition)).map Prod.fst).Nodup := by
    rw [map_map]
    exact m.uids_nodup_filter _
  have hread : ((m.components.map fun e => (e.uid, e.definition)).map
      (fun (uid, definition) => definition.declare uid .component)).map
        DeclaredEntity.sorted
        = (m.components.map ModelEntity.declared).map DeclaredEntity.sorted := by
    simp only [map_map]
    refine map_congr_left fun e he => ?_
    have hkind : e.kind = .component := by simpa using (mem_filter.1 he).2
    have hsorted := ModelEntity.sorted_declare_definition (m.valid_components e he)
    rwa [hkind] at hsorted
  rw [← hread]
  exact ((Keyed.entries_ofList_perm hkeys).map _).map _

/-- The content types that a document declares are those of the model. -/
theorem entities_document_perm :
    ((m.document.entities.entries.filterMap fun (uid, definition) =>
        definition.entityKind?.map fun kind => definition.declare uid kind).map
          DeclaredEntity.sorted).Perm
      ((m.contentTypes.map ModelEntity.declared).map DeclaredEntity.sorted) := by
  have hkeys :
      ((m.contentTypes.map fun e => (e.uid, e.definition)).map Prod.fst).Nodup := by
    rw [map_map]
    exact m.uids_nodup_filter _
  have hkind : ∀ e ∈ m.contentTypes, e.definition.entityKind? = some e.kind := by
    rintro ⟨uid, interfaceName, kind, fields⟩ he
    have hne : kind ≠ .component := by simpa using (mem_filter.1 he).2
    cases kind with
    | collection => rfl
    | single => rfl
    | component => exact absurd rfl hne
  have hread :
      ((m.contentTypes.map fun e => (e.uid, e.definition)).filterMap
        fun (uid, definition) =>
      definition.entityKind?.map fun kind => definition.declare uid kind).map
        DeclaredEntity.sorted
        = (m.contentTypes.map ModelEntity.declared).map DeclaredEntity.sorted := by
    rw [filterMap_map, map_filterMap, map_map, ← filterMap_eq_map]
    refine filterMap_congr fun e he => ?_
    simp only [Function.comp_apply, hkind e he, Option.map_some,
      ModelEntity.sorted_declare_definition (m.valid_contentTypes e he)]
  rw [← hread]
  exact ((Keyed.entries_ofList_perm hkeys).filterMap _).map _

/-! ## Declaration text -/

/-- The registry gives every interface the UID of its entity. -/
theorem find?_registry {e : ModelEntity} (he : e ∈ m.entities) :
    (Keyed.ofList (Declared.registered m.text)).find? e.interfaceName = some e.uid := by
  have hperm : (m.contentTypes ++ m.components).Perm m.entities := by
    have hsplit :=
      filter_append_perm (fun e : ModelEntity => e.kind != .component) m.entities
    simp only [bne, Bool.not_not] at hsplit
    exact hsplit
  have hnodup :
      (((m.contentTypes ++ m.components).map fun e => (e.interfaceName, e.uid)).map
        Prod.fst).Nodup := by
    rw [map_map]
    exact (hperm.map _).nodup_iff.2 m.interfaces
  rw [m.registered_text]
  exact Keyed.find?_ofList hnodup (mem_map.2 ⟨e, hperm.mem_iff.2 he, rfl⟩)

/-- The text declares what the entities of the model declare, in their
order. -/
theorem declarations_schema (filter : Filter) :
    m.declarations.schema filter
      = .ok (Schema.assemble (m.components.map ModelEntity.declared)
        (m.contentTypes.map ModelEntity.declared)
          filter) := by
  have hentities : (m.entities.map ModelEntity.interface).filterMap
      (·.entity? (Keyed.ofList (Declared.registered m.text)))
        = m.entities.map ModelEntity.declared := by
    rw [filterMap_map, ← filterMap_eq_map]
    exact filterMap_congr fun e he =>
      ModelEntity.entity?_bodyText (m.valid e he) (m.find?_registry he)
  have hinterfaces : m.entities.map ModelEntity.interface ≠ [] := by
    simpa using m.nonempty
  have hempty : Declared.interfaces "".toList = .ok []
      ∧ Declared.registered "".toList = [] := ⟨rfl, rfl⟩
  simp only [DeclarationText.schema, declarations, String.toList_ofList,
    interfaces_text, hempty.1, hempty.2, append_nil, Bind.bind, Except.bind, hentities]
  rw [if_neg hinterfaces, filter_map, filter_map]
  rfl

/-! ## Agreement -/

/-- The declaration text and the schema document of a content model have the
same schema, under every filter. -/
theorem declarations_schema_eq (filter : Filter) :
    m.declarations.schema filter = .ok (m.document.schema filter) := by
  have huids : ∀ p : ModelEntity → Bool,
      (((m.entities.filter p).map ModelEntity.declared).map
        DeclaredEntity.uid).Nodup := by
    intro p
    rw [map_map]
    exact m.uids_nodup_filter p
  rw [m.declarations_schema, SchemaDocument.schema]
  exact congrArg Except.ok
    (Schema.assemble_eq_of_perm filter m.components_document_perm.symm
    m.entities_document_perm.symm (huids _) (huids _))

/-! Orders of a shop, with an enumeration, a relation, a dynamic zone and
flags. -/

def shopEntities : List ModelEntity :=
  [{ uid := "api::order.order", interfaceName := "ApiOrderOrder", kind := .collection
     fields :=
      [{ name := "status", form := .value (.enumeration ["open", "paid"]),
         isRequired := true },
        { name := "customer", form := .relation "manyToOne"
            (some "api::customer.customer") },
        { name := "lines", form := .zone ["shop.line", "shop.discount"],
          isRequired := true },
        { name := "remark", form := .value .text, isPrivate := true }] },
    { uid := "api::customer.customer", interfaceName := "ApiCustomerCustomer",
      kind := .collection, fields := [] },
    { uid := "shop.line", interfaceName := "ShopLine", kind := .component
      fields := [{ name := "photos", form := .media true }] },
    { uid := "shop.discount", interfaceName := "ShopDiscount", kind := .component,
      fields := [] }]

def shop : ContentModel where
  entities := shopEntities
  nonempty := by decide
  valid := by
    simp only [shopEntities, forall_mem_cons]
    refine ⟨?_, ?_, ?_, ?_, by simp⟩
      <;> exact ⟨by decide, by decide, by decide, by decide, by decide⟩
  uids := by decide
  interfaces := by decide

/-- The private remark is no field of the schema, and everything else is. -/
def shopSchema : Schema where
  entities :=
    [{ uid := "api::customer.customer", typeName := "Customer", kind := .collection,
       plugin := none
       attributes := [], relations := [], media := [], components := [], zones := [] },
      { uid := "api::order.order", typeName := "Order", kind := .collection,
        plugin := none
        attributes := [⟨"status", .enumeration ["open", "paid"], true⟩]
        relations :=
          [⟨"customer", .manyToOne, "api::customer.customer", "Customer", false⟩]
        media := [], components := []
        zones :=
          [⟨"lines", [⟨"shop.line", "ShopLine"⟩, ⟨"shop.discount", "ShopDiscount"⟩],
            true⟩] }]
  components :=
    [{ uid := "shop.discount", typeName := "ShopDiscount", kind := .component,
       plugin := none
       attributes := [], relations := [], media := [], components := [], zones := [] },
      { uid := "shop.line", typeName := "ShopLine", kind := .component, plugin := none
        attributes := [], relations := [], media := [⟨"photos", true, false⟩]
        components := [], zones := [] }]

theorem declarations_schema_eq_shop :
    shop.declarations.schema {} = .ok shopSchema
      ∧ shop.document.schema {} = shopSchema := by
  have hschema : shop.declarations.schema {} = .ok shopSchema := by
    rw [shop.declarations_schema]
    simp only [Schema.assemble, DeclaredEntity.assemble, DeclaredEntity.keptFields,
      sortByKey_eq_insertionSort]
    decide +kernel
  exact ⟨hschema, Except.ok.inj ((shop.declarations_schema_eq {}).symm.trans hschema)⟩

end ContentModel

end TypedContent
