import TypedContent.Json.Reader
import TypedContent.Schema.Assemble

/-!
# Schemas as JSON documents

A schema document maps UIDs to entity definitions, and an entity definition
maps field names to attributes:

    { "entities": { "api::item.item": { "kind": "collectionType",
    "attributes": { "title": { "type": "string" } } } }, "components": {
    "shared.seo": { "attributes": {} } } }

A document that does not have this form is refused as a whole. Attributes
are kept as plain values until the schema is built, and one that is
malformed only costs its own field.
-/

namespace TypedContent

/-- The definition of an entity or a component. -/
structure EntityDefinition where
  kind : Option String := none
  attributes : Keyed Json.Value := .empty
deriving Repr

structure SchemaDocument where
  entities : Keyed EntityDefinition
  components : Keyed EntityDefinition := .empty
deriving Repr

/-! ## Reading documents -/

/-- How deep arrays and objects may nest in a text that is kept. -/
def nestingLimit : Nat :=
  127

/-- An attribute stands inside a document, a map of entities, a definition
and a map of attributes. -/
def attributeDepth : Nat :=
  nestingLimit - 4

namespace EntityDefinition

def ofJson? (document : Json.Document) : Option EntityDefinition := do
  let [kind, attributes] ← document.fields? [["kind"], ["attributes"]] | none
  let kind ← Json.Document.optional? (·.optionalText?) none kind
  let attributes ← Json.Document.optional?
      (·.map? (·.value? attributeDepth)) .empty attributes
  return { kind, attributes }

end EntityDefinition

namespace SchemaDocument

def ofJson? (document : Json.Document) : Option SchemaDocument := do
  let [some entities, components] ← document.fields? [["entities"], ["components"]] | none
  let entities ← entities.map? EntityDefinition.ofJson?
  let components ← Json.Document.optional?
      (·.map? EntityDefinition.ofJson?) .empty components
  return { entities, components }

def parse? (source : String) : Option SchemaDocument := do
  ofJson? (← Json.parse? source)

end SchemaDocument

/-! ## Attributes -/

namespace Json.Value

/-- The values of a record's fields, from an object or from an array of at
least `least` fields in order. -/
def fields? (names : List String) (least : Nat) : Value → Option (List (Option Value))
  | object fields => some (names.map fun name => fields.lookup name)
  | array items =>
    if least ≤ items.length ∧ items.length ≤ names.length then
      some (items.map some ++ List.replicate (names.length - items.length) none)
    else none
  | _ => none

def text? : Value → Option String
  | string s => some s
  | _ => none

/-- A string that may be missing or null. -/
def optionalText? : Option Value → Option (Option String)
  | none | some null => some none
  | some value => value.text?.map some

/-- A flag, false when it is missing. -/
def flag? : Option Value → Option Bool
  | none => some false
  | some (bool b) => some b
  | some _ => none

/-- A list of strings, empty when it is missing. -/
def texts? : Option Value → Option (List String)
  | none => some []
  | some (array items) => items.mapM text?
  | some _ => none

end Json.Value

namespace DeclaredField

/-- The members of an attribute, in the order in which an array lists
them. -/
def attributeNames : List String :=
  ["type", "required", "private", "relation", "target", "component", "repeatable",
    "components", "multiple", "enum"]

/-- The field of an attribute; there is none for a malformed attribute. An
array has to reach to the members that no default stands for. -/
def ofAttribute? (name : String) (value : Json.Value) : Option DeclaredField := do
  let [some kind, required, isPrivate, relation, target, component, repeatable,
      components, multiple, enumValues] ← value.fields? attributeNames 6 | none
  return {
    name
    kind := ← kind.text?
    isRequired := ← Json.Value.flag? required
    isPrivate := ← Json.Value.flag? isPrivate
    relation := ← Json.Value.optionalText? relation
    target := ← Json.Value.optionalText? target
    component := ← Json.Value.optionalText? component
    isRepeatable := ← Json.Value.flag? repeatable
    components := ← Json.Value.texts? components
    isMultiple := ← Json.Value.flag? multiple
    enumValues := ← Json.Value.texts? enumValues }

end DeclaredField

/-! ## Building the schema -/

namespace EntityDefinition

def declare (uid : String) (kind : EntityKind) (d : EntityDefinition) : DeclaredEntity :=
  { uid, kind, fields := d.attributes.entries.filterMap fun (name, value) =>
      DeclaredField.ofAttribute? name value }

/-- The kind of an entity: a collection unless another one is given. A
definition of an unknown kind, or of a component among the entities,
declares nothing. -/
def entityKind? (d : EntityDefinition) : Option EntityKind :=
  match d.kind with
  | none => some .collection
  | some name =>
    match EntityKind.ofName? name with
    | some .component | none => none
    | some kind => some kind

end EntityDefinition

namespace SchemaDocument

def schema (d : SchemaDocument) (filter : Filter) : Schema :=
  Schema.assemble
    (d.components.entries.map fun (uid, definition) => definition.declare uid .component)
    (d.entities.entries.filterMap fun (uid, definition) =>
      definition.entityKind?.map fun kind => definition.declare uid kind)
    filter

end SchemaDocument

end TypedContent
