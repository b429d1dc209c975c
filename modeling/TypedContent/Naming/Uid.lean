import TypedContent.Naming.Words

/-!
# Identities of entities

An entity is identified by a *UID*: `api::item.item` or
`plugin::upload.file` with a namespace, `shared.seo` without one. The type
name of an entity is derived from its UID, and a declaration that no
registry lists gets a UID from its interface name.
-/

namespace TypedContent

namespace Uid

/-- The namespace, if there is one, and what follows it. -/
def split (uid : String) : Option String × String :=
  match Text.cutAt? [':', ':'] uid.toList with
  | some (space, rest) => (some (String.ofList space), String.ofList rest)
  | none => (none, uid)

/-- The final dot-separated segment behind the namespace. -/
def lastSegment (uid : String) : String :=
  String.ofList (Text.afterLast '.' (split uid).2.toList)

/-- The plugin that owns a `plugin::` UID. -/
def plugin? (uid : String) : Option String :=
  match split uid with
  | (some "plugin", rest) =>
    let name := rest.toList.takeWhile (· ≠ '.')
    if name = [] then none else some (String.ofList name)
  | _ => none

/-- The type name of a UID: its last segment when it has a namespace, else
all of it. -/
def typeName (uid : String) : String :=
  match split uid with
  | (some _, _) => String.ofList (Naming.pascalCase (lastSegment uid).toList)
  | (none, rest) => String.ofList (Naming.pascalCase rest.toList)

/-! ## UIDs from interface names -/

/-- Plugins whose names have more than one word, or may be followed by
one. -/
def knownPlugins : List String :=
  ["users-permissions", "content-releases", "review-workflows", "upload", "i18n"]

/-- The two sides of the first hyphen joined by a dot; the text twice when
there is none and `doubled`. -/
def dotted (kebab : List Char) (doubled : Bool) : List Char :=
  match Text.cutAt? ['-'] kebab with
  | some (category, name) => category ++ '.' :: name
  | none => if doubled then kebab ++ '.' :: kebab else kebab

/-- The name after a known plugin and a hyphen, with the plugin. -/
def knownPlugin? (kebab : List Char) : Option (List Char × List Char) :=
  knownPlugins.findSome? fun plugin =>
    ((plugin.toList ++ ['-']).isPrefixOf? kebab).map fun name => (plugin.toList, name)

def ofPluginInterface (rest : List Char) : List Char :=
  let kebab := Naming.kebabCase rest
  match knownPlugin? kebab with
  | some (plugin, name) => plugin ++ '.' :: name
  | none => dotted kebab true

def ofApiInterface (rest : List Char) : List Char :=
  let name := Naming.kebabCase (Naming.collapse rest)
  "api::".toList ++ name ++ '.' :: name

/-- The UID of an interface that declares a content type. -/
def ofEntityInterface (cs : List Char) : List Char :=
  match "Api".toList.isPrefixOf? cs with
  | some rest => ofApiInterface rest
  | none =>
    match "Plugin".toList.isPrefixOf? cs with
    | some rest => "plugin::".toList ++ ofPluginInterface rest
    | none =>
      match "Admin".toList.isPrefixOf? cs with
      | some rest => "admin::".toList ++ Naming.kebabCase rest
      | none => ofApiInterface cs

/-- The UID of an interface that no registry lists. -/
def ofInterface (name : String) (isComponent : Bool) : String :=
  String.ofList
    (if isComponent then dotted (Naming.kebabCase name.toList) false
     else ofEntityInterface name.toList)

end Uid

end TypedContent
