import TypedContent.Output.RouteMethods
import TypedContent.Output.Transport
import TypedContent.Output.TypesModule
import TypedContent.Settings

/-!
# The client module

The transport, the classes of the entities, those of the owners of all other
routes, and a class `ApiClient` with one property for each. The module
imports from the types module what its classes and functions mention.
-/

namespace TypedContent

open TypeScript (TypeExpr Expr ClassMember Item)

/-- A property of the client: its name and its class. -/
structure ClientProperty where
  name : String
  className : String
deriving DecidableEq, Repr

/-! ## Classes -/

def camelName (name : String) : String :=
  String.ofList (Naming.camelCase name.toList)

namespace Entity

/-- The class of an entity's custom routes, if it has any. -/
def extensionClass? (e : Entity) (routes : RouteSet) : Option TypeScript.Class :=
  match routes.extensionMethods e.owner with
  | [] => none
  | methods =>
    some
      { name := TypeName.extendedApi e.typeName
        base := some (.ref (TypeName.api e.typeName))
        members := methods.map ClassMember.method
        doc := none }

def classes (e : Entity) (routes : RouteSet) : List TypeScript.Class :=
  e.standardClass routes :: (e.extensionClass? routes).toList

/-- The property of an entity has its most extended class. -/
def clientProperty (e : Entity) (routes : RouteSet) : ClientProperty :=
  { name := camelName e.endpointName
    className := ((e.extensionClass? routes).getD (e.standardClass routes)).name }

end Entity

namespace RouteSet

def className (s : RouteSet) (owner : Owner) : String :=
  TypeName.api (s.namespaceName owner)

/-- The class of an owner that serves no entity. -/
def ownerClass (s : RouteSet) (owner : Owner) : TypeScript.Class :=
  { name := s.className owner
    base := some (.ref "BaseAPI")
    members := endpointConstructor ""
      :: (s.clientMethods (s.ownedBy owner)).map ClassMember.method
    doc := none }

def ownerProperty (s : RouteSet) (owner : Owner) : ClientProperty :=
  { name := camelName (s.qualifiedName owner), className := s.className owner }

/-- The owners with a class of their own: they serve no entity, and no class
before has the name. -/
def standaloneOwners (s : RouteSet) (schema : Schema) : List Owner :=
  let taken := (schema.entities.flatMap (·.classes s)).map TypeScript.Class.name
  distinctBy s.className (s.owners.filter fun owner =>
    !(schema.entities.map Entity.owner).contains owner
      && !taken.contains (s.className owner))

end RouteSet

/-- The classes of a client, apart from the one that holds them together. -/
def clientClasses (schema : Schema) (routes : RouteSet) : List TypeScript.Class :=
  schema.entities.flatMap (·.classes routes)
    ++ (routes.standaloneOwners schema).map routes.ownerClass

/-- The properties of a client; the first one of each name counts. -/
def clientProperties (schema : Schema) (routes : RouteSet) : List ClientProperty :=
  distinctBy ClientProperty.name
    (schema.entities.map (·.clientProperty routes)
      ++ (routes.standaloneOwners schema).map routes.ownerProperty)

/-! ## The client itself -/

def rootName : String :=
  "ApiClient"

def rootClass (properties : List ClientProperty) : TypeScript.Class :=
  { name := rootName
    base := none
    members := (properties.map fun p => .property p.name (.ref p.className) true)
      ++ [.constructor [configParameter]
        (properties.map fun p => .raw
          ("this." ++ p.name ++ " = new " ++ p.className ++ "(config);"))]
    doc := none }

def createFunction : TypeScript.Function :=
  { name := "createClient"
    signature := signature [configParameter] (.ref rootName)
    body := [.returning (some (.new (.identifier rootName) [.identifier "config"]))] }

/-! ## The module -/

/-- The classes and functions of a client, without the transport. -/
def clientItems (schema : Schema) (routes : RouteSet) : List Item :=
  (clientClasses schema routes).map Item.classDef
    ++ [.classDef (rootClass (clientProperties schema routes)),
      .functionDef createFunction]

/-- The part of a name in front of the first dot. -/
def firstSegment (name : String) : String :=
  String.ofList (name.toList.takeWhile (· ≠ '.'))

/-- The names among `declared` that the items mention, in order. -/
def importedNames (items : List Item) (declared : List String) : List String :=
  sortByKey id (distinctBy id
    (((items.flatMap Item.names).map firstSegment).filter declared.contains))

/-- The names that the types module exports. -/
def exportedNames (types : TypeScript.Module) : List String :=
  types.declarations.map (·.name) ++ SharedTypes.names

def clientModule (schema : Schema) (routes : RouteSet) (types : TypeScript.Module)
    (settings : Settings) (fingerprint : String) : TypeScript.Module :=
  let items := clientItems schema routes
  { header := moduleHeader fingerprint
    imports :=
      [{ items := importedNames items (exportedNames types)
         source := settings.typesImportPath
         isTypeOnly := true }]
    items := .raw (Transport.text settings.apiPrefix) :: items }

end TypedContent
