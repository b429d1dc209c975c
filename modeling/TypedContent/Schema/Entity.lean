import TypedContent.Schema.Kind

/-!
# Entities and schemas

A schema is a graph of entities and components. The fields of an entity are
kept in five lists, by what a field leads to; a relation, a component field
and a zone variant carry the UID they lead to together with its type name.
-/

namespace TypedContent

/-- A field with a plain value. -/
structure Attribute where
  name : String
  type : ScalarType
  isRequired : Bool
deriving DecidableEq, Repr

/-- A field that links to another entity. -/
structure Relation where
  name : String
  cardinality : Cardinality
  /-- UID of the entity at the other end. -/
  target : String
  targetType : String
  isRequired : Bool
deriving DecidableEq, Repr

/-- A field for uploaded files. -/
structure MediaField where
  name : String
  isMultiple : Bool
  isRequired : Bool
deriving DecidableEq, Repr

/-- A field that embeds a component. -/
structure ComponentField where
  name : String
  /-- UID of the component. -/
  component : String
  componentType : String
  isRepeatable : Bool
  isRequired : Bool
deriving DecidableEq, Repr

/-- A component that a dynamic zone admits. -/
structure ZoneVariant where
  uid : String
  componentType : String
deriving DecidableEq, Repr

/-- A field with a list of components of several types. -/
structure ZoneField where
  name : String
  variants : List ZoneVariant
  isRequired : Bool
deriving DecidableEq, Repr

/-- A content type or a component. -/
structure Entity where
  uid : String
  typeName : String
  kind : EntityKind
  /-- The plugin that owns the entity. -/
  plugin : Option String
  attributes : List Attribute
  relations : List Relation
  media : List MediaField
  components : List ComponentField
  zones : List ZoneField
deriving DecidableEq, Repr

namespace Entity

def isComponent (e : Entity) : Bool :=
  e.kind == .component

/-- Whether some field leads beyond the entity itself, so that a query may
ask for it to be populated. -/
def isPopulatable (e : Entity) : Bool :=
  !(e.relations.isEmpty && e.media.isEmpty && e.components.isEmpty && e.zones.isEmpty)

end Entity

structure Schema where
  entities : List Entity
  components : List Entity
deriving DecidableEq, Repr

namespace Schema

/-- The components and then the entities. -/
def all (s : Schema) : List Entity :=
  s.components ++ s.entities

def findByTypeName? (s : Schema) (name : String) : Option Entity :=
  s.all.find? (·.typeName == name)

def findByUid? (s : Schema) (uid : String) : Option Entity :=
  s.all.find? (·.uid == uid)

/-- Whether the first entity of that type name is populatable. -/
def isPopulatable (s : Schema) (name : String) : Bool :=
  (s.findByTypeName? name).any Entity.isPopulatable

end Schema

end TypedContent
