import TypedContent.Proofs.Source.Balanced
import TypedContent.Schema.Declaration
import TypedContent.Schema.Document

/-!
# Content models and their two written forms

A *content model* is what a schema is about before it is written down:
entities of three kinds with fields from the closed vocabulary. It can be
written as declaration text (`ContentModel.declarations`) and as a schema
document (`ContentModel.document`). Neither form mentions the other; what
they have in common is what the fields and entities declare
(`ModelField.declared`, `ModelEntity.declared`).

Names of interfaces and fields are identifiers, and the other texts are
labels, which a literal can hold as they are. A model carries the proof of
that, so every model can be written in both forms.
-/

namespace TypedContent

/-! ## Names and labels -/

/-- An ASCII letter, a low line or a dollar sign. -/
def isNameStart (c : Char) : Bool :=
  c.isAlpha || c == '_' || c == '$'

def isNameChar (c : Char) : Bool :=
  isNameStart c || c.isDigit

/-- A character of a UID, of a value of an enumeration or of another
label. -/
def isLabelChar (c : Char) : Bool :=
  c.isAlphanum || c == ' ' || c == '-' || c == '_' || c == '.' || c == ':'

def IsIdentifier (s : String) : Prop :=
  (s.toList.head?.any isNameStart && s.toList.all isNameChar) = true
deriving Decidable

def IsLabel (s : String) : Prop :=
  (!s.toList.isEmpty && s.toList.all isLabelChar) = true
deriving Decidable

/-! ## Models -/

/-- What a field holds. -/
inductive FieldForm where
  /-- A plain value. An enumeration lists its values. -/
  | value (type : ScalarType)
  | relation (kind : String) (target : Option String)
  | component (uid : String) (isRepeatable : Bool)
  | zone (uids : List String)
  | media (isMultiple : Bool)
deriving DecidableEq, Repr

structure ModelField where
  name : String
  form : FieldForm
  isRequired : Bool := false
  isPrivate : Bool := false
deriving DecidableEq, Repr

structure ModelEntity where
  uid : String
  /-- The interface that declares the entity. -/
  interfaceName : String
  kind : EntityKind
  fields : List ModelField
deriving DecidableEq, Repr

/-- The texts that are written as literals. -/
def FieldForm.labels : FieldForm → List String
  | value type => type.values?.getD []
  | relation kind target => kind :: target.toList
  | component uid _ => [uid]
  | zone uids => uids
  | media _ => []

structure ModelEntity.Valid (e : ModelEntity) : Prop where
  uid : IsLabel e.uid
  interfaceName : IsIdentifier e.interfaceName
  names : ∀ f ∈ e.fields, IsIdentifier f.name
  labels : ∀ f ∈ e.fields, ∀ s ∈ f.form.labels, IsLabel s
  distinct : (e.fields.map ModelField.name).Nodup

/-- Entities with distinct UIDs and distinct interfaces, at least one of
them. -/
structure ContentModel where
  entities : List ModelEntity
  nonempty : entities ≠ []
  valid : ∀ e ∈ entities, e.Valid
  uids : (entities.map ModelEntity.uid).Nodup
  interfaces : (entities.map ModelEntity.interfaceName).Nodup

namespace ContentModel

def components (m : ContentModel) : List ModelEntity :=
  m.entities.filter (·.kind == .component)

def contentTypes (m : ContentModel) : List ModelEntity :=
  m.entities.filter (·.kind != .component)

end ContentModel

/-! ## What is declared -/

/-- The kind under which schemas mention the form. -/
def FieldForm.kind : FieldForm → String
  | value type => type.kind
  | relation _ _ => "relation"
  | component _ _ => "component"
  | zone _ => "dynamiczone"
  | media _ => "media"

def ModelField.declared (f : ModelField) : DeclaredField :=
  let plain : DeclaredField :=
    { name := f.name, kind := f.form.kind, isRequired := f.isRequired,
      isPrivate := f.isPrivate }
  match f.form with
  | .value type => { plain with enumValues := type.values?.getD [] }
  | .relation kind target => { plain with relation := some kind, target }
  | .component uid isRepeatable => { plain with component := some uid, isRepeatable }
  | .zone uids => { plain with components := uids }
  | .media isMultiple => { plain with isMultiple }

def ModelEntity.declared (e : ModelEntity) : DeclaredEntity :=
  { uid := e.uid, kind := e.kind, fields := e.fields.map ModelField.declared }

/-! ## Declaration text -/

/-- The constructor of a plain value. -/
def ScalarType.constructorName : ScalarType → String
  | .string => "String"
  | .text => "Text"
  | .richText => "RichText"
  | .blocks => "Blocks"
  | .email => "Email"
  | .integer => "Integer"
  | .bigInteger => "BigInteger"
  | .float => "Float"
  | .decimal => "Decimal"
  | .boolean => "Boolean"
  | .date => "Date"
  | .dateTime => "DateTime"
  | .time => "Time"
  | .json => "JSON"
  | .enumeration _ => "Enumeration"

namespace FieldForm

def constructorName : FieldForm → String
  | value type => type.constructorName
  | relation _ _ => "Relation"
  | component _ _ => "Component"
  | zone _ => "DynamicZone"
  | media _ => "Media"

def literalText (s : String) : List Char :=
  Source.singleQuoted s.toList

def flagText (b : Bool) : List Char :=
  (if b then "true" else "false").toList

/-- The literals of a list between square brackets: `['draft', 'live']`. -/
def listText (texts : List String) : List Char :=
  '[' :: ", ".toList.intercalate (texts.map literalText) ++ [']']

/-- The type arguments of the constructor. -/
def arguments : FieldForm → List (List Char)
  | value (.enumeration values) => [listText values]
  | value _ => []
  | relation kind target => literalText kind :: target.toList.map literalText
  | component uid isRepeatable => [literalText uid, flagText isRepeatable]
  | zone uids => [listText uids]
  | media isMultiple => [literalText "images", flagText isMultiple]

end FieldForm

/-- A part of a field's type: `Schema.Attribute.Media<'images', true>`. -/
def attributeText (name : String) (args : List (List Char)) : List Char :=
  "Schema.Attribute.".toList ++ name.toList
    ++ if args = [] then [] else '<' :: ", ".toList.intercalate args ++ ['>']

namespace ModelField

/-- The names and arguments of the parts of a field's type: the constructor
and then the markers. -/
def typeParts (f : ModelField) : List (String × List (List Char)) :=
  (f.form.constructorName, f.form.arguments)
    :: (if f.isRequired then [("Required", [])] else [])
      ++ if f.isPrivate then [("Private", [])] else []

def typeText (f : ModelField) : List Char :=
  " & ".toList.intercalate (f.typeParts.map fun (name, args) => attributeText name args)

/-- `title: Schema.Attribute.String & Schema.Attribute.Required` -/
def text (f : ModelField) : List Char :=
  f.name.toList ++ ": ".toList ++ f.typeText

example :
    String.ofList (text { name := "tags", form := .relation "manyToMany"
                            (some "api::tag.tag"), isPrivate := true })
    = "tags: Schema.Attribute.Relation<'manyToMany', 'api::tag.tag'> & Schema.Attribute.Private" := by
  decide +kernel

end ModelField

/-- The base of the interfaces of a kind. -/
def EntityKind.baseName : EntityKind → String
  | .collection => "CollectionTypeSchema"
  | .single => "SingleTypeSchema"
  | .component => "ComponentSchema"

/-- Members one after the other, each behind a space and closed by a
semicolon. -/
def membersText {α : Type} (text : α → List Char) (members : List α) : List Char :=
  members.flatMap (fun x => ' ' :: text x ++ [';']) ++ [' ']

namespace ModelEntity

/-- The attributes block with its name. -/
def attributesText (e : ModelEntity) : List Char :=
  "attributes".toList ++ ": ".toList
    ++ ('{' :: membersText ModelField.text e.fields ++ ['}'])

/-- The body of the interface, up to its closing brace. -/
def bodyText (e : ModelEntity) : List Char :=
  membersText attributesText [e]

/-- The header of the interface, from its keyword to its opening brace. -/
def headerText (e : ModelEntity) : List Char :=
  "interface ".toList ++ e.interfaceName.toList ++ " extends Struct.".toList
    ++ e.kind.baseName.toList
    ++ " \x7b".toList

def interfaceText (e : ModelEntity) : List Char :=
  "export ".toList ++ e.headerText ++ e.bodyText ++ "\x7d\n".toList

/-- The entry of a registry: `'api::item.item': ApiItemItem` -/
def entryText (e : ModelEntity) : List Char :=
  FieldForm.literalText e.uid ++ ": ".toList ++ e.interfaceName.toList

end ModelEntity

namespace ContentModel

/-- The registry blocks of content types and components. -/
def registryText (m : ContentModel) : List Char :=
  "declare module '@strapi/strapi' \x7b export module Public \x7b export interface ".toList
    ++ "ContentTypeSchemas \x7b".toList
      ++ membersText ModelEntity.entryText m.contentTypes
    ++ "\x7d export interface ".toList ++ "ComponentSchemas \x7b".toList
    ++ membersText ModelEntity.entryText m.components ++ "\x7d \x7d \x7d\n".toList

/-- An interface for each entity, and then the registry. -/
def text (m : ContentModel) : List Char :=
  m.entities.flatMap ModelEntity.interfaceText ++ m.registryText

def declarations (m : ContentModel) : DeclarationText :=
  { contentTypes := String.ofList m.text }

end ContentModel

/-! ## Schema document -/

/-- The members that only this form has. -/
def FieldForm.attributeMembers : FieldForm → List (String × Json.Value)
  | value (.enumeration values) => [("enum", .array (values.map .string))]
  | value _ => []
  | relation kind target =>
    ("relation", .string kind) :: target.toList.map fun uid => ("target", .string uid)
  | component uid isRepeatable =>
    [("component", .string uid), ("repeatable", .bool isRepeatable)]
  | zone uids => [("components", .array (uids.map .string))]
  | media isMultiple => [("multiple", .bool isMultiple)]

def ModelField.attributeValue (f : ModelField) : Json.Value :=
  .object (("type", .string f.form.kind) :: ("required", .bool f.isRequired)
    :: ("private", .bool f.isPrivate) :: f.form.attributeMembers)

/-- The name of a kind in the definition of an entity; a component has
none. -/
def EntityKind.definitionName? : EntityKind → Option String
  | .collection => some "collectionType"
  | .single => some "singleType"
  | .component => none

def ModelEntity.definition (e : ModelEntity) : EntityDefinition :=
  { kind := e.kind.definitionName?
    attributes := .ofList (e.fields.map fun f => (f.name, f.attributeValue)) }

def ContentModel.document (m : ContentModel) : SchemaDocument :=
  { entities := .ofList (m.contentTypes.map fun e => (e.uid, e.definition))
    components := .ofList (m.components.map fun e => (e.uid, e.definition)) }

end TypedContent
