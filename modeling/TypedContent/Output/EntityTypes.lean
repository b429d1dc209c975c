import TypedContent.Output.Names
import TypedContent.Schema.Entity
import TypedContent.TypeScript.Syntax

/-!
# Interfaces of an entity

For an entity `X`, the interface `X` has the identity fields and the plain
attributes, which are what the server sends unless more is asked for. The
interface `XInput` is the write shape: every field is optional, relations
and media are given by id, and components by their own write shape. The
interface `XFilters` says what instances may be filtered by: the identity
fields, the plain attributes with an order or an equality, relations and
media by id, and combinations of filters.
-/

namespace TypedContent

open TypeScript (TypeExpr Property Declaration)

/-- The type of a plain value. -/
def ScalarType.type : ScalarType → TypeExpr
  | .string | .text | .richText | .email | .bigInteger | .date | .dateTime
  | .time => .string
  | .integer | .float | .decimal => .number
  | .boolean => .boolean
  | .blocks => .ref "BlocksContent"
  | .json => .ref "JsonValue"
  | .enumeration [] => .string
  | .enumeration values => .union (values.map TypeExpr.text)

/-- The type of an attribute, which is null when a value is not required and
missing. -/
def Attribute.valueType (a : Attribute) : TypeExpr :=
  if a.isRequired then a.type.type else .nullable a.type.type

/-- A list of items, or one item that may be missing. -/
def oneOrMany (item : TypeExpr) (isMany : Bool) : TypeExpr :=
  if isMany then .array item else .nullable item

/-- A component in a dynamic zone carries its UID. -/
def taggedVariant (type : TypeExpr) (uid : String) : TypeExpr :=
  .intersection [type, .object [.required "__component" (.text uid)]]

namespace Entity

/-- The fields that the server gives to every entity. -/
def identityFields (e : Entity) : List Property :=
  .required "id" .number
    :: if e.isComponent then []
      else
        [.required "documentId" .string, .required "createdAt" .string,
          .required "updatedAt" .string,
          .required "publishedAt" (.nullable .string)]

/-- The interface of an entity without population. -/
def baseInterface (e : Entity) : Declaration :=
  .interface { name := e.typeName, doc := some e.uid } []
    (e.identityFields ++ e.attributes.map fun a => .required a.name a.valueType)

/-- The interface of what is sent to create or update an entity. -/
def inputInterface (e : Entity) : Declaration :=
  .interface { name := TypeName.input e.typeName } []
    ((if e.isComponent then [.optional "id" .number] else [])
      ++ (e.attributes.map fun a => .optional a.name a.valueType)
      ++ (e.relations.map fun r => .optional r.name
        (oneOrMany .number r.cardinality.isToMany))
      ++ (e.media.map fun m => .optional m.name (oneOrMany .number m.isMultiple))
      ++ (e.components.map fun c =>
        .optional c.name
          (oneOrMany (.ref (TypeName.input c.componentType)) c.isRepeatable))
      ++ (e.zones.map fun z =>
        .optional z.name (.array (.union (z.variants.map fun v =>
          taggedVariant (.ref (TypeName.input v.componentType)) v.uid)))))

end Entity

/-! ## Filters -/

/-- The interface of the operators on a plain value, if there are any. -/
def ScalarType.filter? : ScalarType → Option String
  | .string | .text | .richText | .email | .bigInteger | .enumeration _ =>
    some "StringFilter"
  | .integer | .float | .decimal => some "NumberFilter"
  | .boolean => some "BooleanFilter"
  | .date | .dateTime | .time => some "DateFilter"
  | .json | .blocks => none

namespace Entity

def identityFilters (e : Entity) : List Property :=
  .optional "id" (.ref "NumberFilter")
    :: if e.isComponent then []
      else
        [.optional "documentId" (.ref "StringFilter"),
          .optional "createdAt" (.ref "DateFilter"),
          .optional "updatedAt" (.ref "DateFilter"),
            .optional "publishedAt" (.ref "DateFilter")]

/-- The interface of the filters on an entity. -/
def filtersInterface (e : Entity) : Declaration :=
  let filters : TypeExpr := .ref (TypeName.filters e.typeName)
  .interface { name := TypeName.filters e.typeName } []
    (e.identityFilters
      ++ (e.attributes.filterMap fun a => a.type.filter?.map fun name =>
        .optional a.name (.ref name))
      ++ ((e.relations.map Relation.name ++ e.media.map MediaField.name).map fun name =>
        .optional name (.ref "IdFilter"))
      ++ [.optional "$and" (.array filters), .optional "$or" (.array filters),
        .optional "$not" filters])

end Entity

end TypedContent
