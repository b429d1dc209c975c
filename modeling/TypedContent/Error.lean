/-!
# Errors

The reasons for which a run gives no result. A malformed attribute or route
entry is no reason: it is dropped and the rest is read.
-/

namespace TypedContent

/-- Why a file could not be read or written. -/
inductive FileError where
  | notFound
  | exists
  | notDirectory
  | isDirectory
  | nameTooLong
  /-- Any other reason, in the system's words. -/
  | other (reason : String)
deriving DecidableEq, Repr

/-- The system's wording, with its number. -/
def FileError.message : FileError → String
  | .notFound => "No such file or directory (os error 2)"
  | .exists => "File exists (os error 17)"
  | .notDirectory => "Not a directory (os error 20)"
  | .isDirectory => "Is a directory (os error 21)"
  | .nameTooLong => "File name too long (os error 36)"
  | .other reason => reason

inductive Error where
  /-- A schema document that is no JSON text or does not have the form of
  one. -/
  | schemaDocument
  /-- Declaration text without any schema interface. -/
  | noInterfaces
  /-- A schema interface whose braces do not match. -/
  | unbalancedInterface (name : String)
  /-- A list of routes that is no JSON text or does not have the form of
  one. -/
  | routeDocument
  /-- A routes module without an object. -/
  | noRouteModule
  /-- A routes module whose object has no list of routes. -/
  | noRouteList
  | settings
  | file (path : String) (cause : FileError)
deriving DecidableEq, Repr

namespace Error

/-- The line that reports an error. -/
def message : Error → String
  | schemaDocument => "invalid schema input: malformed document"
  | noInterfaces => "invalid schema declarations: no schema interfaces found"
  | unbalancedInterface name =>
    "invalid schema declarations: unbalanced braces in interface " ++ name
  | routeDocument => "invalid route input: malformed document"
  | noRouteModule => "invalid route input: no exported route module object"
  | noRouteList => "invalid route input: route module has no routes array"
  | settings => "invalid configuration: malformed document"
  | file path cause => "I/O error on " ++ path ++ ": " ++ cause.message

/-- The exit code of a run that fails: 1 for input that makes no sense, 3
for settings, 4 for files. -/
def exitCode : Error → Nat
  | settings => 3
  | file _ _ => 4
  | _ => 1

end Error

end TypedContent
