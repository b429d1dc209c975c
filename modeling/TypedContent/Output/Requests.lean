import TypedContent.Output.PopulateTypes
import TypedContent.Route.Basic
import TypedContent.TypeScript.Lexical

/-!
# Requests in method bodies

The expressions that generated methods send requests with, and the paths
these go to.
-/

namespace TypedContent

open TypeScript (TypeExpr Property Expr TemplatePiece Statement Parameter
  Signature Method)

/-! ## Types -/

def promise (type : TypeExpr) : TypeExpr :=
  .generic "Promise" [type]

/-- Both the number and the string that identify an entity are accepted. -/
def idType : TypeExpr :=
  .union [.number, .string]

/-! ## Paths -/

/-- `encodeURIComponent(String(value))` -/
def encoded (value : Expr) : Expr :=
  .apply (.identifier "encodeURIComponent") [.apply (.identifier "String") [value]]

def PathPiece.template : PathPiece → TemplatePiece
  | literal text => .text (String.ofList text)
  | param name => .value (encoded (.member (.identifier "params") (String.ofList name)))

/-- A path with its parameters taken from `params`. -/
def pathTemplate (path : String) : Expr :=
  if Path.params path.toList = [] then .text path
  else .template ((Path.pieces path.toList).map PathPiece.template)

/-- The path of a collection or of a single type. -/
def endpointPath : Expr :=
  .this "endpoint"

/-- The path of an entry of a collection. -/
def itemPath : Expr :=
  .template [.value endpointPath, .text "/", .value (encoded (.identifier "id"))]

/-! ## Requests -/

/-- Await an answer of type `response`. -/
def request (method : String) (response : TypeExpr) (path : Expr)
    (options : List TypeScript.Field) : Expr :=
  .await (.call (.this "request") [response]
    (.text method :: path :: if options.isEmpty then [] else [.object options]))

/-- The caller's parameters as the query. -/
def queryOption : TypeScript.Field :=
  .mk "query" (.identifier "params")

/-- The caller's data as the body. -/
def dataOption : TypeScript.Field :=
  .mk "body" (.object [.mk "data" (.identifier "data")])

/-- Return the data of an answer. -/
def returnData (answer : Expr) : List Statement :=
  [.const "response" answer, .returning (some (.member (.identifier "response") "data"))]

/-! ## Methods -/

/-- A parameter list without type parameters, and what is returned. -/
def signature (parameters : List Parameter) (returns : TypeExpr) : Signature :=
  { typeParameters := [], parameters, returns := some returns }

def asyncMethod (name : String) (overloads : List Signature) (implementation : Signature)
    (body : List Statement) : Method :=
  { name, overloads, implementation, body, isAsync := true, doc := none }

end TypedContent
