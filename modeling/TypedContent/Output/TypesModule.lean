import TypedContent.Output.PopulateTypes
import TypedContent.Output.SharedTypes
import TypedContent.Route.Basic

/-!
# The types module

The shared declarations, those of every component and entity, and the
namespaces of custom routes. The endpoint types of an owner's actions are
declared in a namespace of their own:

    export namespace AIChat {
      export type SendRequest = { message: string };
      export type SendResponse = { reply: string };
    }

An owner without endpoint types has no namespace.
-/

namespace TypedContent

open TypeScript (Declaration Item)

/-! ## Types of custom routes -/

/-- The declarations of an action's types. -/
def EndpointTypes.aliases (action : String) (t : EndpointTypes) : List Declaration :=
  Slot.all.filterMap fun slot =>
    (t.get slot).map fun text => .typeAlias { name := slot.aliasName action } (.raw text)

namespace RouteSet

/-- The declarations for an owner's routes. Several routes of one handler
share their types. -/
def ownerAliases (s : RouteSet) (owner : Owner) : List Declaration :=
  (distinctBy Route.handler (s.ownedBy owner)).flatMap fun r =>
    match s.typesOf? r.handler with
    | none => []
    | some types => types.aliases r.action

/-- The namespace of an owner. -/
def namespaceName (s : RouteSet) (owner : Owner) : String :=
  controllerNamespace (s.qualifiedName owner)

def ownerNamespace? (s : RouteSet) (owner : Owner) : Option Declaration :=
  match s.ownerAliases owner with
  | [] => none
  | aliases => some (.scope { name := s.namespaceName owner } aliases)

/-- The namespaces of all owners. -/
def namespaces (s : RouteSet) : List Declaration :=
  s.owners.filterMap s.ownerNamespace?

end RouteSet

/-! ## The module -/

/-- The declarations for one entity. -/
def Entity.declarations (e : Entity) (schema : Schema) : List Declaration :=
  [e.baseInterface, e.inputInterface]
    ++ (if e.isPopulatable then [e.populateParam schema, e.populateAlias,
      e.payloadAlias schema] else [])
    ++ [e.filtersInterface]

/-- The declarations of a schema and its routes, without the shared ones. -/
def typeDeclarations (schema : Schema) (routes : RouteSet) : List Declaration :=
  schema.all.flatMap (·.declarations schema) ++ routes.namespaces

def typesModule (schema : Schema) (routes : RouteSet)
    (fingerprint : String) : TypeScript.Module :=
  { header := moduleHeader fingerprint
    imports := []
    items :=
      .raw SharedTypes.text :: (typeDeclarations schema routes).map Item.declaration }

end TypedContent
