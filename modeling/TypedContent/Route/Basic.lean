import TypedContent.Distinct
import TypedContent.Route.EndpointTypes
import TypedContent.Route.Path

/-!
# Routes

A *descriptor* is a custom HTTP route as the server describes it. A route is
what is left when its handler is resolved to a controller and an action; a
descriptor without both is passed over. Routes belong to an *owner*, a
controller of the application or of a plugin. A `RouteSet` holds the routes
in order and the endpoint types of each handler.
-/

namespace TypedContent

structure RouteDescriptor where
  /-- HTTP method, in any case. -/
  method : String
  path : String
  handler : String
  /-- The controller, if it is not the one of the handler. -/
  controller : Option String := none
  /-- The action, if it is not the one of the handler. -/
  action : Option String := none
  types : Option EndpointTypes := none
  /-- The plugin that registers the route. -/
  plugin : Option String := none
  /-- What stands before the path instead of the plugin. -/
  pathPrefix : Option String := none
deriving DecidableEq, Repr

/-- The controller that a route belongs to, of the application or of a
plugin. -/
structure Owner where
  controller : String
  plugin : Option String
deriving DecidableEq, Repr

structure Route where
  /-- HTTP method, in upper case. -/
  method : String
  path : String
  /-- The controller and the action, by which the types of the route are
  kept. -/
  handler : String
  controller : String
  action : String
  /-- The parameters of the path, in order. -/
  params : List String
  plugin : Option String
  pathPrefix : Option String
deriving DecidableEq, Repr

namespace Route

def owner (r : Route) : Owner :=
  ⟨r.controller, r.plugin⟩

/-- The path below the API, with the plugin in front unless the route has a
prefix of its own. -/
def fullPath (r : Route) : String :=
  match r.pathPrefix, r.plugin with
  | some start, _ => start ++ r.path
  | none, some plugin => "/" ++ plugin ++ r.path
  | none, none => r.path

end Route

namespace RouteDescriptor

/-- The controller and the action, if the descriptor has both. -/
def target? (d : RouteDescriptor) : Option (String × String) := do
  let parts := Handler.split? d.handler.toList
  let controller ← d.controller.or
      (parts.map fun (controller, _) => String.ofList controller)
  let action ← d.action.or (parts.map fun (_, action) => String.ofList action)
  if controller = "" ∨ action = "" then none else return (controller, action)

/-- The route of a descriptor. -/
def route? (d : RouteDescriptor) : Option Route :=
  d.target?.map fun (controller, action) =>
    { method := String.ofList ((Text.trim d.method.toList).map Char.toUpper)
      path := String.ofList (Text.trim d.path.toList)
      handler := controller ++ "." ++ action
      controller
      action
      params := (Path.params d.path.toList).map String.ofList
      plugin := d.plugin
      pathPrefix := d.pathPrefix }

/-- The handler of the route and its types, if it has any. -/
def givenTypes? (d : RouteDescriptor) : Option (String × EndpointTypes) := do
  let route ← d.route?
  let types := (← d.types).squash
  if types.isEmpty then none else return (route.handler, types)

end RouteDescriptor

structure RouteSet where
  /-- In the order of their descriptors. -/
  routes : List Route := []
  /-- The endpoint types, by handler. -/
  types : Keyed EndpointTypes := .empty
deriving DecidableEq, Repr

namespace Owner

/-- Owners are ordered by controller, and the application comes before the
plugins. -/
def le (a b : Owner) : Bool :=
  if a.controller = b.controller then
    match a.plugin, b.plugin with
    | none, _ => true
    | some _, none => false
    | some p, some q => decide (p ≤ q)
  else decide (a.controller ≤ b.controller)

end Owner

namespace RouteSet

def ofDescriptors (ds : List RouteDescriptor) : RouteSet :=
  { routes := ds.filterMap (·.route?)
    types := EndpointTypes.collect (ds.filterMap (·.givenTypes?)) }

def isEmpty (s : RouteSet) : Bool :=
  s.routes.isEmpty

def typesOf? (s : RouteSet) (handler : String) : Option EndpointTypes :=
  s.types.find? handler

def ownedBy (s : RouteSet) (owner : Owner) : List Route :=
  s.routes.filter (·.owner = owner)

/-- The owners of the routes, in order. -/
def owners (s : RouteSet) : List Owner :=
  (distinctBy id (s.routes.map Route.owner)).mergeSort Owner.le

/-- Whether several owners have a controller of this name. -/
def isShared (s : RouteSet) (controller : String) : Bool :=
  match s.routes.filter (·.controller = controller) with
  | [] => false
  | first :: rest => rest.any (·.plugin ≠ first.plugin)

/-- Whether a route of the owner has an empty prefix. -/
def hasEmptyPrefix (s : RouteSet) (owner : Owner) : Bool :=
  s.routes.any fun r => r.owner = owner ∧ r.pathPrefix = some ""

/-- The controller name of an owner, with the plugin in front if the name
alone is shared. -/
def qualifiedName (s : RouteSet) (owner : Owner) : String :=
  match owner.plugin with
  | some plugin =>
    if s.isShared owner.controller then plugin ++ "-" ++ owner.controller
      else owner.controller
  | none => owner.controller

end RouteSet

end TypedContent
