import TypedContent.Output.TypesModule
import TypedContent.Proofs.TypeScript.Evaluation
import TypedContent.TypeScript.Printer

/-!
# What population means

A *spec* says what is to be populated: everything, some fields by name, or
some fields with options, which may ask for more about what a field leads
to. This file says which fields a payload has under a spec, by recursion on
the spec and without any type expression (`Spec.added`). `Output.Payload`
shows that the payload types of the types module evaluate to that.

It also puts together the declarations that names in the types module refer
to (`typesScope`).
-/

namespace TypedContent

open List TypeScript

/-! ## Specs -/

mutual

/-- What is asked for about an entity. -/
inductive Spec where
  /-- The wildcard, written as `true` or as `"*"`. -/
  | everything (isFlag : Bool)
  | listed (names : List String)
  | keyed (entries : List (String × FieldSpec))

/-- What is asked for about a field, or about a variant of a dynamic
zone. -/
inductive FieldSpec where
  /-- `true` -/
  | plain
  /-- Which fields of what the field leads to are wanted and what is to be
  populated there. The other options do not change what a payload looks
  like. -/
  | options (fields : Option (List String)) (populate : Option Spec)
      (filters sort pagination : Option Value)
  /-- Options for the variants of a dynamic zone, by their UIDs. -/
  | variants (on : List (String × FieldSpec))

end

/-- A field that may be missing. -/
def optionalField (name : String) (value : Option Value) : Fields :=
  (value.map fun v => (name, v)).toList

mutual

/-- A spec as the type that is asked for. -/
def Spec.value : Spec → Value
  | .everything true => .literal (.bool true)
  | .everything false => .text "*"
  | .listed names => .tuple (names.map .text)
  | .keyed entries => .object (entryValues entries)

def FieldSpec.value : FieldSpec → Value
  | .plain => .literal (.bool true)
  | .options fields populate filters sort pagination =>
    .object (optionalField "fields" (fields.map fun names => .tuple (names.map .text))
      ++ (match populate with
        | some spec => [("populate", spec.value)]
        | none => [])
      ++ optionalField "filters" filters ++ optionalField "sort" sort
        ++ optionalField "pagination" pagination)
  | .variants on => .object [("on", .object (entryValues on))]

def entryValues : List (String × FieldSpec) → Fields
  | [] => []
  | (name, spec) :: entries => (name, spec.value) :: entryValues entries

end

mutual

/-- How deep specs are nested in a spec. -/
def Spec.depth : Spec → Nat
  | .everything _ | .listed _ => 0
  | .keyed entries => entriesDepth entries

def FieldSpec.depth : FieldSpec → Nat
  | .plain => 0
  | .options _ populate _ _ _ =>
    match populate with
    | some spec => spec.depth + 1
    | none => 0
  | .variants on => entriesDepth on

def entriesDepth : List (String × FieldSpec) → Nat
  | [] => 0
  | (_, spec) :: entries => max spec.depth (entriesDepth entries)

end

/-! ## Specs as types -/

theorem Spec.isAtom_value (spec : Spec) : spec.value.IsAtom := by
  cases spec with
  | everything isFlag => cases isFlag <;> rfl
  | listed names => rfl
  | keyed entries => rfl

/-- The fields that are wanted of what a field leads to. -/
def FieldSpec.wanted : FieldSpec → Option (List String)
  | options fields _ _ _ _ => fields
  | _ => none

/-- What is to be populated of what a field leads to. -/
def FieldSpec.populate? : FieldSpec → Option Spec
  | options _ populate _ _ _ => populate
  | _ => none

/-- The options for the variants of a zone. -/
def FieldSpec.on? : FieldSpec → Option (List (String × FieldSpec))
  | variants on => some on
  | _ => none

namespace FieldSpec

theorem isAtom_value (spec : FieldSpec) : spec.value.IsAtom := by
  cases spec <;> rfl

theorem lookup_optionalField (name : String) (value : Option Value) (rest : Fields)
    (other : String) :
    (optionalField name value ++ rest).lookup other
      = if other = name then value.or (rest.lookup other) else rest.lookup other := by
  cases value with
  | none => simp [optionalField]
  | some v =>
    change ((name, v) :: rest).lookup other = _
    rw [lookup_entry_cons]
    rfl

/-- The options that an object of options has. -/
def optionFields (fields : Option (List String)) (populate : Option Spec)
    (filters sort pagination : Option Value) :
    Fields :=
  optionalField "fields" (fields.map fun names => .tuple (names.map .text))
    ++ (optionalField "populate" (populate.map Spec.value)
      ++ (optionalField "filters" filters
        ++ (optionalField "sort" sort
        ++ (optionalField "pagination" pagination ++ []))))

theorem value_options (fields : Option (List String)) (populate : Option Spec)
    (filters sort pagination : Option Value) :
    (options fields populate filters sort pagination).value
      = .object (optionFields fields populate filters sort pagination) := by
  cases populate <;> simp [value, optionFields, optionalField]

theorem field?_fields (spec : FieldSpec) :
    spec.value.field? "fields" = spec.wanted.map fun names =>
      [.tuple (names.map .text)] := by
  cases spec with
  | plain => rfl
  | options fields populate filters sort pagination =>
    rw [value_options, Value.field?, optionFields]
    simp only [lookup_optionalField]
    cases fields <;> simp [wanted, Value.members]
  | variants on => rfl

theorem field?_populate (spec : FieldSpec) :
    spec.value.field? "populate" = spec.populate?.map fun q => [q.value] := by
  cases spec with
  | plain => rfl
  | options fields populate filters sort pagination =>
    rw [value_options, Value.field?, optionFields]
    simp only [lookup_optionalField]
    cases populate with
    | none => simp [populate?]
    | some q =>
      have hatom : q.value.members = [q.value] := q.isAtom_value
      simp [populate?, hatom]
  | variants on => rfl

theorem field?_on (spec : FieldSpec) :
    spec.value.field? "on" = spec.on?.map fun on => [.object (entryValues on)] := by
  cases spec with
  | plain => rfl
  | options fields populate filters sort pagination =>
    rw [value_options, Value.field?, optionFields]
    simp only [lookup_optionalField]
    simp [on?]
  | variants on => rfl

end FieldSpec

/-! ## Base fields -/

/-- The values of a plain field. -/
def ScalarType.payloadValue : ScalarType → Value
  | .string | .text | .richText | .email | .bigInteger | .date | .dateTime | .time =>
    .primitive .string
  | .integer | .float | .decimal => .primitive .number
  | .boolean => .primitive .boolean
  | .blocks => .named "BlocksContent"
  | .json => .named "JsonValue"
  | .enumeration [] => .primitive .string
  | .enumeration values => .oneOf values

def Attribute.payloadValue (a : Attribute) : Value :=
  if a.isRequired then a.type.payloadValue else .unionOf [a.type.payloadValue, .null]

/-- What the server sends about every entity. -/
def Entity.identityValues (e : Entity) : Fields :=
  ("id", .primitive .number)
    :: if e.isComponent then []
      else [("documentId", .primitive .string), ("createdAt", .primitive .string),
        ("updatedAt", .primitive .string),
          ("publishedAt", .unionOf [.primitive .string, .null])]

/-- What the server sends about an entity unless more is asked for. -/
def Entity.baseFields (e : Entity) : Fields :=
  e.identityValues ++ e.attributes.map fun a => (a.name, a.payloadValue)

/-- The base fields of the entity with a type name. -/
def Schema.baseFields (schema : Schema) (type : String) : Fields :=
  ((schema.findByTypeName? type).map Entity.baseFields).getD []

/-- What the server sends about a file. -/
def mediaFields : Fields :=
  let text : Value := .primitive .string
  let number : Value := .primitive .number
  let orNull (value : Value) : Value := .unionOf [value, .null]
  [("id", number), ("documentId", text), ("name", text), ("alternativeText", orNull text),
    ("caption", orNull text), ("width", orNull number), ("height", orNull number),
    ("formats", orNull (.record text (.named "MediaFormat"))), ("hash", text),
      ("ext", text), ("mime", text),
    ("size", number), ("url", text), ("previewUrl", orNull text), ("provider", text),
      ("createdAt", text),
    ("updatedAt", text)]

/-! ## Populated fields -/

/-- A list of values, or one that may be missing. -/
def manyOf (value : Value) (isMany : Bool) : Value :=
  if isMany then .array value else .unionOf [value, .null]

/-- What a component in a dynamic zone looks like: its fields, and its UID
as a tag. -/
def tagged (fields : Fields) (uid : String) : Value :=
  .object (Value.mergeFields fields [("__component", .text uid)])

/-- The wanted ones among the fields; the identity fields are always
wanted. -/
def narrow (wanted : Option (List String)) (fields : Fields) : Fields :=
  match wanted with
  | none => fields
  | some names =>
    fields.filter fun field => (names ++ ["id", "documentId"]).contains field.1

namespace PopulatedField

/-- The value of a field that is populated and about which nothing more is
said. -/
def shallow (schema : Schema) : PopulatedField → Value
  | target _ type isMany _ => manyOf (.object (schema.baseFields type)) isMany
  | media _ isMany => manyOf (.object mediaFields) isMany
  | zone z =>
    .array (.unionOf (z.variants.map fun v =>
      tagged (schema.baseFields v.componentType) v.uid))

/-- The value of a field under options: the fields that are wanted, what
becomes of a type that the field leads to, and what becomes of those
variants that have options of their own. -/
def deep (schema : Schema) (wanted : Option (List String)) (shape : String → Fields)
    (variants : List (String × (String → Fields))) : PopulatedField → Value
  | target _ type isMany _ => manyOf (.object (shape type)) isMany
  | media _ isMany => manyOf (.object (narrow wanted mediaFields)) isMany
  | zone z =>
    .array (.unionOf (z.variants.map fun v =>
      tagged ((variants.lookup v.uid).getD schema.baseFields v.componentType) v.uid))

end PopulatedField

/-- Those fields that have a value, with their values. -/
def Entity.fieldsWith (value : PopulatedField → Option Value) (e : Entity) : Fields :=
  e.populatedFields.filterMap fun f => (value f).map fun v => (f.name, v)

mutual

/-- The value of a field under a spec, if the spec selects the field. -/
def Spec.fieldValue? (schema : Schema) : Spec → PopulatedField → Option Value
  | .everything _, f => some (f.shallow schema)
  | .listed names, f => if f.name ∈ names then some (f.shallow schema) else none
  | .keyed entries, f =>
    ((fieldValues schema entries).lookup f.name).map fun value => value f

/-- What becomes of the fields that have an entry. -/
def fieldValues (schema : Schema) :
    List (String × FieldSpec) → List (String × (PopulatedField → Value))
  | [] => []
  | (name, spec) :: entries =>
    (name, PopulatedField.deep schema spec.wanted (spec.shape schema)
      (spec.variantShapes schema))
      :: fieldValues schema entries

/-- What becomes of a type that a field leads to: its wanted fields, and
what is added to them. -/
def FieldSpec.shape (schema : Schema) : FieldSpec → String → Fields
  | .options fields populate _ _ _, type =>
    narrow fields (schema.baseFields type)
      ++ (match populate with
        | some spec =>
          ((schema.findByTypeName? type).map
            (Entity.fieldsWith (spec.fieldValue? schema))).getD []
        | none => [])
  | _, type => schema.baseFields type

/-- What becomes of the variants of a zone that have options. -/
def FieldSpec.variantShapes (schema : Schema) :
    FieldSpec → List (String × (String → Fields))
  | .variants on => entryShapes schema on
  | _ => []

def entryShapes (schema : Schema) :
    List (String × FieldSpec) → List (String × (String → Fields))
  | [] => []
  | (uid, spec) :: entries => (uid, spec.shape schema) :: entryShapes schema entries

end

/-- The fields that a spec adds to the base fields of an entity. -/
def Spec.added (schema : Schema) (spec : Spec) (e : Entity) : Fields :=
  e.fieldsWith (spec.fieldValue? schema)

/-! ## Declarations that payloads refer to -/

namespace SharedTypes

/-- The interface of files. -/
def mediaFileInterface : Declaration :=
  .interface { name := "MediaFile" } []
    [.required "id" .number, .required "documentId" .string, .required "name" .string,
      .required "alternativeText" (.nullable .string),
        .required "caption" (.nullable .string),
      .required "width" (.nullable .number), .required "height" (.nullable .number),
      .required "formats" (.nullable (.record .string (.ref "MediaFormat"))),
        .required "hash" .string,
      .required "ext" .string, .required "mime" .string, .required "size" .number,
        .required "url" .string,
      .required "previewUrl" (.nullable .string), .required "provider" .string,
      .required "createdAt" .string, .required "updatedAt" .string]

/-- The choice of fields. -/
def selectFieldsAlias : Declaration :=
  .typeAlias
    { name := "SelectFields"
      typeParameters := [{ name := "T" }, { name := "S" }]
      doc := some "Narrow `T` to the selected fields, always keeping identity fields." }
    (.conditional (.ref "S") (.object [.required "fields" (.readonlyArray (.infer "F"))])
      (.generic "Pick" [.ref "T",
        .generic "Extract" [.union [.ref "F", .text "id", .text "documentId"],
          .keyof (.ref "T")]])
      (.ref "T"))

/-- The interface of files is the last declaration of its part of the shared
text. -/
theorem mediaFileInterface_render :
    mediaFileInterface.render = Text.unlines (contentTypes.drop 20) := by
  decide +kernel

theorem selectFieldsAlias_render :
    selectFieldsAlias.render = Text.unlines selectionTypes := by
  decide +kernel

end SharedTypes

/-- What the names in a types module refer to: everything that the module
declares, and those shared declarations that payload types refer to. -/
def typesScope (schema : Schema) (routes : RouteSet) (fingerprint : String) : Scope :=
  (typesModule schema routes fingerprint).declarations
    ++ [SharedTypes.mediaFileInterface, SharedTypes.selectFieldsAlias]

section

variable (schema : Schema) (routes : RouteSet) (fingerprint : String)

theorem declarations_typesModule :
    (typesModule schema routes fingerprint).declarations
      = typeDeclarations schema routes := by
  have hread : ∀ ds : List Declaration,
      (ds.map Item.declaration).filterMap Item.declaration? = ds := by
    intro ds
    rw [filterMap_map]
    exact filterMap_some
  rw [Module.declarations, typesModule, filterMap_cons_none rfl, hread]

theorem typeNames_typesScope :
    (typesScope schema routes fingerprint).typeNames
      = (typesModule schema routes fingerprint).typeNames
        ++ ["MediaFile", "SelectFields"] := by
  rw [Scope.typeNames, typesScope, filter_append, map_append]
  rfl

variable {schema}

theorem mem_typeDeclarations {e : Entity} (he : e ∈ schema.all) {d : Declaration}
    (hd : d ∈ e.declarations schema) : d ∈ typeDeclarations schema routes :=
  mem_append_left _ (mem_flatMap.2 ⟨e, he, hd⟩)

theorem mem_declarations_populate {e : Entity} (h : e.isPopulatable = true) :
    e.populateParam schema ∈ e.declarations schema
      ∧ e.populateAlias ∈ e.declarations schema
      ∧ e.payloadAlias schema ∈ e.declarations schema := by
  simp [Entity.declarations, h]

end

end TypedContent
