import TypedContent.Command.Arguments
import TypedContent.Compile
import TypedContent.Files.Access
import TypedContent.Route.Declaration
import TypedContent.Route.Document

/-!
# Runs of the command

A run reads everything first: the settings, the routes, the schema. Only
when all of it makes sense does it write, and then it makes the output
directory, the modules and a record of the fingerprint, in this order.
-/

namespace TypedContent

namespace Command

open Files (Access)

variable {m : Type → Type} [Monad m]

/-! ## Reading -/

/-- A document that has been read, or the error when it makes no sense. -/
def decoded {α : Type} (e : Error) (result : Option α) : ExceptT Error m α :=
  match result with
  | some a => return a
  | none => throw e

def readSettings (files : Access m) (path : Option String) : ExceptT Error m Settings :=
  match path with
  | none => return {}
  | some path => do decoded .settings (Settings.ofToml? (← files.text path))

def readListedRoutes (files : Access m) (path : Option String) :
    ExceptT Error m (List RouteDescriptor) :=
  match path with
  | none => return []
  | some path =>
    do decoded .routeDocument (RouteDescriptor.parseList? (← files.text path))

def readIfGiven (files : Access m) (path : Option String) :
    ExceptT Error m (Option String) :=
  match path with
  | none => return none
  | some path => do return some (← files.text path)

/-- The routes of some modules. They all share the declarations of endpoint
types. -/
def readModules (files : Access m) (types : Option String) :
    List String → ExceptT Error m (List RouteDescriptor)
  | [] => return []
  | path :: paths => do
    let descriptors ← ExceptT.mk
        (pure (RouteModule.readWithTypes (← files.text path) types none))
    return descriptors ++ (← readModules files types paths)

def readRoutes (files : Access m) (r : Request) :
    ExceptT Error m (List RouteDescriptor) := do
  let listed ← readListedRoutes files r.routes
  let types ← readIfGiven files r.routeTypes
  return listed ++ (← readModules files types r.routeModules)

/-- The names of the files in a directory of declarations. Components may be
missing. -/
def contentTypesFile : String :=
  "contentTypes.d.ts"

def componentsFile : String :=
  "components.d.ts"

def readSchema (files : Access m) (place : SchemaPlace) : ExceptT Error m SchemaSource :=
  match place with
  | .document path => do
    return .document (← decoded .schemaDocument
      (SchemaDocument.parse? (← files.text path)))
  | .declarations directory => do
    let contentTypes ← files.text (Files.join directory contentTypesFile)
    let components ← files.textIfThere (Files.join directory componentsFile)
    return .declarations { contentTypes, components }

/-! ## Writing -/

/-- The record of a run. -/
def metaText (fingerprint time : String) : String :=
  Json.Value.renderStringObject [("generatedAt", time), ("schemaHash", fingerprint)]

/-- The files of a run: the types, the client if there is one, and the
record. -/
def outputs (g : Generated) (time : String) : List (String × String) :=
  ("types.ts", g.typesText)
    :: (g.clientModule.toList.map fun m => ("client.ts", m.render))
    ++ [("meta.json", metaText g.fingerprint time)]

def writeAll (files : Access m) (directory : String) :
    List (String × String) → ExceptT Error m Unit
  | [] => return ()
  | (name, text) :: rest => do
    files.store (Files.join directory name) text
    writeAll files directory rest

/-! ## Runs -/

/-- Everything that a run does before it writes. -/
def prepare (files : Access m) (r : Request) : ExceptT Error m Generated := do
  let settings ← readSettings files r.config
  let descriptors ← readRoutes files r
  let source ← readSchema files r.schema
  ExceptT.mk (pure (compile source descriptors settings))

/-- Generate modules at a given time. -/
def generate (files : Access m) (time : String)
    (r : Request) : ExceptT Error m Generated := do
  let generated ← prepare files r
  files.directory r.out
  writeAll files r.out (outputs generated time)
  return generated

/-- How a run ends. -/
inductive Outcome where
  | done
  | help
  | version
  | misused (cause : Misuse)
  | failed (cause : Error)
deriving DecidableEq, Repr

def Outcome.exitCode : Outcome → Nat
  | done | help | version => 0
  | misused _ => 2
  | failed cause => cause.exitCode

/-- Run the program on some arguments. -/
def run (files : Access m) (time : String) (arguments : List String) : m Outcome :=
  match parse arguments with
  | .error cause => return .misused cause
  | .ok .help => return .help
  | .ok .version => return .version
  | .ok (.generate request) => do
    match ← (generate files time request).run with
    | .ok _ => return .done
    | .error cause => return .failed cause

end Command

end TypedContent
