import TypedContent.Output.EntityClass
import TypedContent.Output.TypesModule

/-!
# Methods of custom routes

A custom route becomes a method that is named after its action. It takes the
path parameters, a body for the HTTP methods that send one, and a query. A
slot without a declared type has a loose one.
-/

namespace TypedContent

open TypeScript (TypeExpr Property Parameter Method)

/-- The actions that the standard methods serve. -/
def coreActions : List String :=
  ["find", "findOne", "create", "update", "delete"]

/-- The HTTP methods that send a body. -/
def bodyMethods : List String :=
  ["POST", "PUT", "PATCH"]

namespace Route

/-- The type declared for a slot, by its qualified name. -/
def declaredType? (r : Route) (routes : RouteSet) (slot : Slot) : Option TypeExpr :=
  ((routes.typesOf? r.handler).bind (·.get slot)).map fun _ =>
    .ref (routes.namespaceName r.owner ++ "." ++ slot.aliasName r.action)

/-- The parameters of a path are strings or numbers unless more is said. -/
def pathParamsType (r : Route) : TypeExpr :=
  .object (r.params.map fun name => .required name idType)

def looseQueryType : TypeExpr :=
  .record .string .unknown

def hasBody (r : Route) : Bool :=
  bodyMethods.contains r.method

def methodParameters (r : Route) (routes : RouteSet) : List Parameter :=
  (if r.params.isEmpty then []
    else [.required "params" ((r.declaredType? routes .params).getD r.pathParamsType)])
    ++ (if r.hasBody then
      [.required "body" ((r.declaredType? routes .body).getD .unknown)] else [])
    ++ [.optional "query" ((r.declaredType? routes .query).getD looseQueryType)]

def requestOptions (r : Route) : List TypeScript.Field :=
  (if r.hasBody then [.mk "body" (.identifier "body")] else [])
    ++ [.mk "query" (.identifier "query")]

def methodName (r : Route) : String :=
  TypeScript.methodName r.action

/-- The method that calls a route. -/
def clientMethod (r : Route) (routes : RouteSet) : Method :=
  let response := (r.declaredType? routes .response).getD .unknown
  { asyncMethod r.methodName [] (signature (r.methodParameters routes) (promise response))
      [.returning (some
        (request r.method response (pathTemplate r.fullPath) r.requestOptions))] with
    doc := some (r.method ++ " " ++ r.fullPath) }

end Route

namespace RouteSet

/-- The methods for some of the routes; the first route of each method name
counts. -/
def clientMethods (s : RouteSet) (chosen : List Route) : List Method :=
  (distinctBy Route.methodName chosen).map (·.clientMethod s)

/-- The methods for an entity's routes beside the standard ones. -/
def extensionMethods (s : RouteSet) (owner : Owner) : List Method :=
  s.clientMethods ((s.ownedBy owner).filter fun r => !coreActions.contains r.action)

end RouteSet

end TypedContent
