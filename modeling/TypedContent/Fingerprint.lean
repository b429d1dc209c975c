import TypedContent.Digest.Sha256
import TypedContent.Json.Printer
import TypedContent.Route.Basic
import TypedContent.Schema.Entity

/-!
# Fingerprints

The fingerprint of a schema and its routes tells whether modules have to be
generated again. It is the digest of a JSON text with the fields of every
object in order, so it depends on what the schema and the routes say and on
nothing else.
-/

namespace TypedContent

open Json (Value)

/-! ## Schemas as values -/

def ScalarType.fields (t : ScalarType) : List (String × Value) :=
  ("type", .string t.kind)
    :: (t.values?.toList.map fun values => ("values", .array (values.map Value.string)))

def Attribute.value (a : Attribute) : Value :=
  .object (("name", .string a.name) :: a.type.fields
    ++ [("required", .bool a.isRequired)])

def Relation.value (r : Relation) : Value :=
  .object [("name", .string r.name), ("relationType", .string r.cardinality.name),
    ("target", .string r.target), ("targetType", .string r.targetType),
      ("required", .bool r.isRequired)]

def MediaField.value (m : MediaField) : Value :=
  .object [("name", .string m.name), ("multiple", .bool m.isMultiple),
    ("required", .bool m.isRequired)]

def ComponentField.value (c : ComponentField) : Value :=
  .object [("name", .string c.name), ("component", .string c.component),
    ("componentType", .string c.componentType), ("repeatable", .bool c.isRepeatable),
    ("required", .bool c.isRequired)]

def ZoneVariant.value (v : ZoneVariant) : Value :=
  .object [("uid", .string v.uid), ("componentType", .string v.componentType)]

def ZoneField.value (z : ZoneField) : Value :=
  .object [("name", .string z.name),
    ("components", .array (z.variants.map ZoneVariant.value)),
    ("required", .bool z.isRequired)]

def Entity.value (e : Entity) : Value :=
  .object [("uid", .string e.uid), ("cleanName", .string e.typeName),
    ("kind", .string e.kind.name),
    ("pluginName", .optional e.plugin),
    ("attributes", .array (e.attributes.map Attribute.value)),
    ("relations", .array (e.relations.map Relation.value)),
    ("media", .array (e.media.map MediaField.value)),
    ("components", .array (e.components.map ComponentField.value)),
    ("dynamicZones", .array (e.zones.map ZoneField.value))]

def Schema.value (s : Schema) : Value :=
  .object [("entities", .array (s.entities.map Entity.value)),
    ("components", .array (s.components.map Entity.value))]

/-! ## Routes as values -/

def EndpointTypes.value (t : EndpointTypes) : Value :=
  .object [("body", .optional t.body), ("response", .optional t.response),
    ("params", .optional t.params),
    ("query", .optional t.query)]

def Route.value (r : Route) : Value :=
  .object [("method", .string r.method), ("path", .string r.path),
    ("handler", .string r.handler),
    ("controller", .string r.controller), ("action", .string r.action),
    ("params", .array (r.params.map Value.string)), ("pluginName", .optional r.plugin),
    ("prefix", .optional r.pathPrefix)]

def RouteSet.value (s : RouteSet) : Value :=
  .object [("routes", .array (s.routes.map Route.value)),
    ("endpointTypes",
      .object (s.types.entries.map fun (handler, types) => (handler, types.value)))]

/-! ## The digest -/

/-- The text that a fingerprint is taken of. -/
def fingerprintText (schema : Schema) (routes : RouteSet) : String :=
  (Value.object [("schema", schema.value), ("routes", routes.value)]).canonical.render

/-- The fingerprint, in hexadecimal digits. -/
def fingerprint (schema : Schema) (routes : RouteSet) : String :=
  Sha256.hex (fingerprintText schema routes)

end TypedContent
