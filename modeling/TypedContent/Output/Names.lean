import TypedContent.Naming.Words
import TypedContent.Route.EndpointTypes

/-!
# Names of generated declarations

The declarations for an entity are named after its type name, and those for
an action after the action.
-/

namespace TypedContent

namespace TypeName

/-- The write shape of an entity. -/
def input (name : String) : String :=
  name ++ "Input"

/-- What may be said about the population of each field. -/
def populateParam (name : String) : String :=
  name ++ "PopulateParam"

/-- Every form in which population may be asked for. -/
def populate (name : String) : String :=
  name ++ "Populate"

/-- The payload, depending on the population asked for. -/
def withPopulate (name : String) : String :=
  name ++ "WithPopulate"

def filters (name : String) : String :=
  name ++ "Filters"

/-- The class with the standard methods of an entity. -/
def api (name : String) : String :=
  name ++ "API"

/-- That class with the methods of custom routes. -/
def extendedApi (name : String) : String :=
  name ++ "ExtendedAPI"

end TypeName

/-- What the name of a slot's type ends in. -/
def Slot.suffix : Slot → String
  | .body => "Request"
  | .response => "Response"
  | .params => "Params"
  | .query => "Query"

/-- The name of the type of a slot of an action. -/
def Slot.aliasName (action : String) (slot : Slot) : String :=
  String.ofList (Naming.pascalCase action.toList) ++ slot.suffix

/-- The namespace of the types of a controller's actions. -/
def controllerNamespace (controller : String) : String :=
  String.ofList (Naming.namespaceName controller.toList)

/-- The comment lines at the top of a generated module. -/
def moduleHeader (fingerprint : String) : List String :=
  ["Generated by cms-typegen. Do not edit.", "Schema hash: " ++ fingerprint]

end TypedContent
