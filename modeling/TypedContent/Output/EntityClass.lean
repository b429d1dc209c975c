import TypedContent.Naming.Uid
import TypedContent.Output.Requests

/-!
# Classes of entities

Every entity has a class with the standard methods of its kind. The methods
that read an entity with fields to populate are overloaded: one signature
for each branch of its payload type, in the order of the branches, and one
for everything else. A caller's first matching signature is then the one of
the branch that is taken.
-/

namespace TypedContent

open TypeScript (TypeExpr Property Expr TypeParameter Statement Parameter Signature
  Method ClassMember)

/-! ## Reading -/

/-- The query parameters of an entity. -/
def Entity.queryType (e : Entity) : TypeExpr :=
  .generic "QueryParams" [.ref e.typeName, .ref (TypeName.filters e.typeName)]

/-- The signature for the populations that `constraint` admits. -/
def Entity.populatedSignature (e : Entity) (leading : List Parameter)
    (wrap : TypeExpr → TypeExpr) (constraint : TypeExpr) (isConst : Bool) : Signature :=
  { typeParameters := [{ name := specParameter, constraint := some constraint, isConst }]
    parameters := leading ++
      [.required "params"
        (.intersection [e.queryType, .object
          [.required "populate" (.ref specParameter)]])]
    returns :=
      some
        (promise
        (wrap (.generic (TypeName.withPopulate e.typeName) [.ref specParameter]))) }

/-- The signature for every population, which promises no more than the base
type. -/
def Entity.fallbackSignature (e : Entity) (leading : List Parameter)
    (wrap : TypeExpr → TypeExpr) :
    Signature :=
  signature
    (leading ++
      [.optional "params" (.intersection
        [e.queryType, .object
          [.optional "populate" (.ref (TypeName.populate e.typeName))]])])
    (promise (wrap (.ref e.typeName)))

/-- The overloads of a reading method. -/
def Entity.readOverloads (e : Entity) (leading : List Parameter)
    (wrap : TypeExpr → TypeExpr) :
    List Signature :=
  if e.isPopulatable then
    [e.populatedSignature leading wrap wildcard false,
      e.populatedSignature leading wrap (fieldList e.typeName) true,
      e.populatedSignature leading wrap (.ref (TypeName.populateParam e.typeName)) true,
      e.fallbackSignature leading wrap]
  else []

/-- The signature of a reading method's implementation, which is loose
behind overloads. -/
def Entity.readImplementation (e : Entity) (leading : List Parameter)
    (wrap : TypeExpr → TypeExpr) :
    Signature :=
  if e.isPopulatable then signature (leading ++ [.optional "params" .any]) (promise .any)
  else signature (leading ++ [.optional "params" e.queryType])
    (promise (wrap (.ref e.typeName)))

def Entity.readMethod (e : Entity) (name : String) (leading : List Parameter)
    (wrap : TypeExpr → TypeExpr) (body : List Statement) : Method :=
  asyncMethod name (e.readOverloads leading wrap) (e.readImplementation leading wrap) body

/-! ## Standard methods -/

def listResponse (type : TypeExpr) : TypeExpr :=
  .generic "ListResponse" [type]

def singleResponse (type : TypeExpr) : TypeExpr :=
  .generic "SingleResponse" [type]

def idParameter : Parameter :=
  .required "id" idType

/-- An answer that there is no such entry is no error. -/
def missingAsNull : Statement :=
  .raw ("if (error instanceof ApiError && error.status === 404) \x7b\n"
    ++ "  return null;\n"
    ++ "\x7d\n"
    ++ "throw error;")

namespace Entity

def collectionMethods (e : Entity) : List Method :=
  let base : TypeExpr := .ref e.typeName
  let input : TypeExpr := .ref (TypeName.input e.typeName)
  [e.readMethod "find" [] .array
      (returnData (request "GET" (listResponse base) endpointPath [queryOption])),
    e.readMethod "findWithMeta" [] listResponse
      [.returning (some (request "GET" (listResponse base) endpointPath [queryOption]))],
    e.readMethod "findOne" [idParameter] .nullable
      [.tryCatch (returnData
        (request "GET" (singleResponse base) itemPath [queryOption])) "error"
        [missingAsNull]],
    asyncMethod "create" [] (signature [.required "data" input] (promise base))
      (returnData (request "POST" (singleResponse base) endpointPath [dataOption])),
    asyncMethod "update" []
      (signature [idParameter, .required "data" (.generic "Partial" [input])]
        (promise base))
      (returnData (request "PUT" (singleResponse base) itemPath [dataOption])),
    asyncMethod "delete" [] (signature [idParameter] (promise (.primitive .void)))
      [.expr (request "DELETE" .unknown itemPath [])]]

def singleMethods (e : Entity) : List Method :=
  let base : TypeExpr := .ref e.typeName
  let input : TypeExpr := .ref (TypeName.input e.typeName)
  [e.readMethod "find" [] id
      (returnData (request "GET" (singleResponse base) endpointPath [queryOption])),
    asyncMethod "update" []
      (signature [.required "data" (.generic "Partial" [input])] (promise base))
      (returnData (request "PUT" (singleResponse base) endpointPath [dataOption]))]

/-- The standard methods of an entity. -/
def standardMethods (e : Entity) : List Method :=
  match e.kind with
  | .single => e.singleMethods
  | .collection | .component => e.collectionMethods

/-! ## Places on the server -/

/-- The controller that serves an entity, and its plugin. -/
def owner (e : Entity) : Owner :=
  ⟨Uid.lastSegment e.uid, e.plugin⟩

/-- The last part of an entity's path. -/
def endpointName (e : Entity) : String :=
  String.ofList (Naming.endpointName e.typeName.toList (e.kind == .single))

/-- The path of an entity. It starts with the plugin, unless a route of the
entity's controller has an empty prefix. -/
def endpoint (e : Entity) (routes : RouteSet) : String :=
  match e.plugin with
  | some plugin =>
    if routes.hasEmptyPrefix e.owner then "/" ++ e.endpointName
    else "/" ++ plugin ++ "/" ++ e.endpointName
  | none => "/" ++ e.endpointName

end Entity

/-! ## The class -/

/-- The parameter of every constructor. -/
def configParameter : Parameter :=
  .required "config" (.ref "ClientConfig")

/-- A constructor that fixes the path of a class. -/
def endpointConstructor (endpoint : String) : ClassMember :=
  .constructor [configParameter]
    [.expr (.apply (.identifier "super") [.identifier "config", .text endpoint])]

/-- The class with the standard methods of an entity. -/
def Entity.standardClass (e : Entity) (routes : RouteSet) : TypeScript.Class :=
  { name := TypeName.api e.typeName
    base := some (.ref "BaseAPI")
    members := endpointConstructor (e.endpoint routes)
      :: e.standardMethods.map ClassMember.method
    doc := some e.uid }

end TypedContent
