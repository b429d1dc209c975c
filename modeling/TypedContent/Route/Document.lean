import TypedContent.Json.Reader
import TypedContent.Route.Basic

/-!
# Routes as JSON documents

A list of route descriptors:

    [{ "method": "POST", "path": "/orders/:id/pay", "handler": "order.pay",
       "types": { "body": "{ amount: number }" } }]

Only the method, the path and the handler are required. A list that does not
have this form is refused as a whole.
-/

namespace TypedContent

open Json (Document)

namespace EndpointTypes

def ofJson? (document : Document) : Option EndpointTypes := do
  let [body, response, params, query] ←
    document.fields? [["body"], ["response"], ["params", "pathParams"], ["query"]] | none
  return {
    body := ← Document.optional? (·.optionalText?) none body
    response := ← Document.optional? (·.optionalText?) none response
    params := ← Document.optional? (·.optionalText?) none params
    query := ← Document.optional? (·.optionalText?) none query }

/-- The types of an endpoint, or null for none. -/
def optionalOfJson? : Document → Option (Option EndpointTypes)
  | .null => some none
  | document => (ofJson? document).map some

end EndpointTypes

namespace RouteDescriptor

def ofJson? (document : Document) : Option RouteDescriptor := do
  let [some method, some path, some handler, controller, action, types,
      plugin, pathPrefix] ←
    document.fields? [["method"], ["path"], ["handler"], ["controller"], ["action"],
      ["types"], ["pluginName"], ["prefix"]] | none
  return {
    method := ← method.text?
    path := ← path.text?
    handler := ← handler.text?
    controller := ← Document.optional? (·.optionalText?) none controller
    action := ← Document.optional? (·.optionalText?) none action
    types := ← Document.optional? EndpointTypes.optionalOfJson? none types
    plugin := ← Document.optional? (·.optionalText?) none plugin
    pathPrefix := ← Document.optional? (·.optionalText?) none pathPrefix }

/-- The descriptors of a JSON text. -/
def parseList? (source : String) : Option (List RouteDescriptor) := do
  (← Json.parse? source).list? ofJson?

end RouteDescriptor

end TypedContent
