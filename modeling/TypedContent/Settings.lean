import TypedContent.Toml.Reader

/-!
# Settings

What a user may choose about the generated modules. A settings document sets
any of the five fields; the others keep their defaults, and a field it does
not know is refused.
-/

namespace TypedContent

structure Settings where
  /-- The path in front of every request, unless the client is told another
  one. -/
  apiPrefix : String := "/api"
  /-- Where the client imports its types from. -/
  typesImportPath : String := "./types"
  /-- Whether a client is generated at all. -/
  emitClient : Bool := true
  /-- Plugins whose entities are kept, besides those of the authentication
  plugin. -/
  includePlugins : List String := []
  /-- Names of fields that are left out, besides the built-in ones. -/
  excludeFields : List String := []
deriving DecidableEq, Repr

namespace Settings

/-- Set one field. -/
def set? (s : Settings) : String × Toml.Value → Option Settings
  | ("api_prefix", .string value) => some { s with apiPrefix := value }
  | ("types_import_path", .string value) => some { s with typesImportPath := value }
  | ("emit_client", .bool value) => some { s with emitClient := value }
  | ("include_plugins", .strings values) => some { s with includePlugins := values }
  | ("exclude_fields", .strings values) => some { s with excludeFields := values }
  | _ => none

/-- The settings of a TOML document. -/
def ofToml? (source : String) : Option Settings := do
  (← Toml.parse? source).foldlM set? {}

end Settings

end TypedContent
