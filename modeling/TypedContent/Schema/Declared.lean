import TypedContent.Naming.Uid
import TypedContent.Schema.Kind
import TypedContent.Settings

/-!
# Declared entities

What a schema source declares, before it is known what the fields lead to.
Every source is brought into this form first, so the rules on which entities
and fields are kept are stated once, for all of them.
-/

namespace TypedContent

/-- A field as it is declared. Which of the members mean something depends
on the kind. -/
structure DeclaredField where
  name : String
  kind : String
  isRequired : Bool := false
  /-- Hidden from the answers of the server. -/
  isPrivate : Bool := false
  /-- Kind of a relation. -/
  relation : Option String := none
  /-- UID that a relation leads to. -/
  target : Option String := none
  /-- UID of an embedded component. -/
  component : Option String := none
  isRepeatable : Bool := false
  /-- UIDs of the components of a dynamic zone. -/
  components : List String := []
  isMultiple : Bool := false
  enumValues : List String := []
deriving DecidableEq, Repr

structure DeclaredEntity where
  uid : String
  kind : EntityKind
  fields : List DeclaredField
deriving DecidableEq, Repr

/-! ## Classes of fields -/

inductive FieldClass where
  | relation
  | media
  | component
  | zone
  | scalar (type : ScalarType)
  /-- No known kind; the field is dropped. -/
  | unknown
deriving DecidableEq, Repr

def DeclaredField.fieldClass (f : DeclaredField) : FieldClass :=
  match f.kind with
  | "relation" => .relation
  | "media" => .media
  | "component" => .component
  | "dynamiczone" => .zone
  | kind =>
    match ScalarType.ofKind? kind f.enumValues with
    | some type => .scalar type
    | none => .unknown

/-! ## What is kept -/

/-- Fields that the server manages; they appear as identity fields
instead. -/
def systemFields : List String :=
  ["id", "documentId", "createdAt", "updatedAt", "publishedAt"]

/-- Fields on authorship and locale, which are never shown. -/
def privacyFields : List String :=
  ["createdBy", "updatedBy", "locale", "localizations"]

/-- The plugin whose users and roles are always kept. -/
def authPlugin : String :=
  "users-permissions"

def authTypes : List String :=
  ["user", "role"]

/-- Which entities and fields are kept beyond the built-in rules. -/
structure Filter where
  plugins : List String := []
  excludedFields : List String := []
deriving DecidableEq, Repr

namespace Filter

def ofSettings (s : Settings) : Filter :=
  ⟨s.includePlugins, s.excludeFields⟩

/-- Whether the entity of a UID is kept: the components, the entities of the
application, the users and roles of the authentication plugin, and the
entities of the chosen plugins. -/
def allows (f : Filter) (uid : String) : Bool :=
  match Uid.split uid with
  | (none, _) => true
  | (some "api", _) => true
  | (some "plugin", _) =>
    match Uid.plugin? uid with
    | none => false
    | some plugin =>
      if plugin = authPlugin then authTypes.contains (Uid.lastSegment uid)
      else f.plugins.contains plugin
  | (some _, _) => false

def excludes (f : Filter) (field : DeclaredField) : Bool :=
  field.isPrivate || systemFields.contains field.name || privacyFields.contains field.name
    || f.excludedFields.contains field.name

end Filter

end TypedContent
