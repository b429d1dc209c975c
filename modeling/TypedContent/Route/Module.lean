import TypedContent.Error
import TypedContent.Route.Basic
import TypedContent.Source.Block
import TypedContent.Source.Member

/-!
# Routes modules

Routes can be declared in a module of the server:

    export default { prefix: '/shop', routes: [ { method: 'POST', path:
    '/orders/:id/pay', handler: 'order.pay', config: { prefix: '' } }, ], };

The object behind the export is read, or the first object of the text when
nothing is exported. An entry without a method, a path or a handler is
passed over; a module without a list of routes is refused.
-/

namespace TypedContent

namespace RouteModule

/-- The words in front of the exported object. -/
def exportHeader : Source.Pattern Unit := fun _ cs =>
  (do
    let cs ← Source.blanks? (← Source.word? "export" cs)
    return ((), ← Source.word? "default" cs))
  <|> (do
    let cs ← Source.word? "module.exports" cs
    return ((), ← Source.char? '=' (Text.trimStart cs)))

/-- The text behind the first export, or all of it. -/
def afterExport (cs : List Char) : List Char :=
  match exportHeader.found cs with
  | [] => cs
  | (_, rest) :: _ => rest

/-- The text of a value that is a string literal. -/
def literal? (value : List Char) : Option String :=
  if Source.isQuoted value then some (String.ofList (Source.unquote value)) else none

/-- The value of the last member with a name. -/
def lastValue? (members : List Source.Member) (name : String) : Option (List Char) :=
  ((members.filter (·.name = name.toList)).getLast?).map Source.Member.value

/-- The prefix in a route's configuration. -/
def configPrefix? (config : List Char) : Option String := do
  let block ← Source.block? '{' config
  literal? (← Source.memberValue? block.inner "prefix".toList)

/-- The descriptor of a route object, given what stands between its
braces. -/
def descriptor? (body : List Char) : Option RouteDescriptor := do
  let members := Source.members body
  let method ← literal? (← lastValue? members "method")
  let path ← literal? (← lastValue? members "path")
  let handler ← literal? (← lastValue? members "handler")
  return { method, path, handler,
           pathPrefix := (lastValue? members "config").bind configPrefix? }

/-- The descriptors of the entries of a list of routes. The module's prefix
is for the routes without one. -/
def entries (list : List Char)
    (modulePrefix plugin : Option String) : List RouteDescriptor :=
  (Source.parts [','] list).filterMap fun entry => do
    let object ← Source.block? '{' entry
    let descriptor ← descriptor? object.inner
    return { descriptor with pathPrefix := descriptor.pathPrefix.or modulePrefix, plugin }

/-- The list of routes in the body of a module's object. -/
def routeList? (body : List Char) : Option (List Char) := do
  let value ← Source.memberValue? body "routes".toList
  if value.head? = some '[' then (Source.block? '[' value).map (·.inner) else none

/-- Read a routes module that belongs to `plugin`. -/
def read (source : String) (plugin : Option String) :
    Except Error (List RouteDescriptor) :=
  match Source.block? '{' (afterExport source.toList) with
  | none => .error .noRouteModule
  | some object =>
    match routeList? object.inner with
    | none => .error .noRouteList
    | some list =>
      let modulePrefix :=
        (Source.memberValue? object.inner "prefix".toList).map fun value =>
          String.ofList (Source.unquote value)
      .ok (entries list modulePrefix plugin)

end RouteModule

end TypedContent
