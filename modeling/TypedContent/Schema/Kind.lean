/-!
# Kinds of entities, fields and relations

The closed vocabularies of a content schema, with the names under which
schemas mention them.
-/

namespace TypedContent

/-- Whether an entity has many instances, exactly one, or lives inside other
entities. -/
inductive EntityKind where
  | collection
  | single
  | component
deriving DecidableEq, Repr

namespace EntityKind

def ofName? : String → Option EntityKind
  | "collectionType" | "collection" => some .collection
  | "singleType" | "single" => some .single
  | "component" => some .component
  | _ => none

def name : EntityKind → String
  | .collection => "collection"
  | .single => "single"
  | .component => "component"

theorem ofName?_name (k : EntityKind) : ofName? k.name = some k := by
  cases k <;> rfl

end EntityKind

/-- The type of a plain value. -/
inductive ScalarType where
  | string
  | text
  | richText
  | blocks
  | email
  | integer
  /-- An integer that is sent as a string. -/
  | bigInteger
  | float
  | decimal
  | boolean
  | date
  | dateTime
  | time
  | json
  | enumeration (values : List String)
deriving DecidableEq, Repr

namespace ScalarType

/-- The scalar type of a kind. Only an enumeration makes use of `values`. -/
def ofKind? (kind : String) (values : List String) : Option ScalarType :=
  match kind with
  | "string" => some .string
  | "text" => some .text
  | "richtext" => some .richText
  | "blocks" => some .blocks
  | "email" => some .email
  | "integer" => some .integer
  | "biginteger" => some .bigInteger
  | "float" => some .float
  | "decimal" => some .decimal
  | "boolean" => some .boolean
  | "date" => some .date
  | "datetime" => some .dateTime
  | "time" => some .time
  | "json" => some .json
  | "enumeration" => some (.enumeration values)
  | _ => none

def kind : ScalarType → String
  | .string => "string"
  | .text => "text"
  | .richText => "richtext"
  | .blocks => "blocks"
  | .email => "email"
  | .integer => "integer"
  | .bigInteger => "biginteger"
  | .float => "float"
  | .decimal => "decimal"
  | .boolean => "boolean"
  | .date => "date"
  | .dateTime => "datetime"
  | .time => "time"
  | .json => "json"
  | .enumeration _ => "enumeration"

/-- The values of an enumeration. -/
def values? : ScalarType → Option (List String)
  | .enumeration values => some values
  | _ => none

theorem ofKind?_kind (t : ScalarType) : ofKind? t.kind (t.values?.getD []) = some t := by
  cases t <;> rfl

end ScalarType

/-- How many entities stand at the two ends of a relation. -/
inductive Cardinality where
  | oneToOne
  | oneToMany
  | manyToOne
  | manyToMany
deriving DecidableEq, Repr

namespace Cardinality

/-- The cardinality of a relation's kind. The two one-way kinds are read as
the kinds whose values have the same shape. -/
def ofName? : String → Option Cardinality
  | "oneToOne" | "oneWay" => some .oneToOne
  | "oneToMany" | "manyWay" => some .oneToMany
  | "manyToOne" => some .manyToOne
  | "manyToMany" => some .manyToMany
  | _ => none

def name : Cardinality → String
  | .oneToOne => "oneToOne"
  | .oneToMany => "oneToMany"
  | .manyToOne => "manyToOne"
  | .manyToMany => "manyToMany"

/-- Whether the relation leads to a list. -/
def isToMany : Cardinality → Bool
  | .oneToMany | .manyToMany => true
  | .oneToOne | .manyToOne => false

theorem ofName?_name (c : Cardinality) : ofName? c.name = some c := by
  cases c <;> rfl

end Cardinality

end TypedContent
