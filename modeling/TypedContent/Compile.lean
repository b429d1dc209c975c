import TypedContent.Fingerprint
import TypedContent.Output.ClientModule
import TypedContent.Schema.Declaration
import TypedContent.Schema.Document
import TypedContent.TypeScript.Printer

/-!
# Generating modules

From a schema and routes to the two modules and their texts. Everything here
is a function of the input: the same schema, routes and settings give the
same texts.
-/

namespace TypedContent

/-- What is generated from a schema and its routes. -/
structure Generated where
  fingerprint : String
  typesModule : TypeScript.Module
  /-- The client, if one is wanted. -/
  clientModule : Option TypeScript.Module

namespace Generated

def typesText (g : Generated) : String :=
  g.typesModule.render

/-- The text of the client; empty when there is none. -/
def clientText (g : Generated) : String :=
  match g.clientModule with
  | some m => m.render
  | none => ""

end Generated

/-- Generate the modules of a schema and its routes. -/
def generate (schema : Schema) (routes : RouteSet) (settings : Settings) : Generated :=
  let hash := fingerprint schema routes
  let types := typesModule schema routes hash
  { fingerprint := hash
    typesModule := types
    clientModule :=
      if settings.emitClient then
        some (clientModule schema routes types settings hash)
      else none }

/-- A schema in one of the two forms in which it is written down. -/
inductive SchemaSource where
  | document (document : SchemaDocument)
  | declarations (text : DeclarationText)

def SchemaSource.schema (s : SchemaSource) (filter : Filter) : Except Error Schema :=
  match s with
  | document d => .ok (d.schema filter)
  | declarations t => t.schema filter

/-- Generate the modules of a schema that is written down, and of routes
that are described. -/
def compile (source : SchemaSource) (descriptors : List RouteDescriptor)
    (settings : Settings) :
    Except Error Generated := do
  let schema ← source.schema (.ofSettings settings)
  return generate schema (.ofDescriptors descriptors) settings

end TypedContent
