import TypedContent.Error
import TypedContent.Schema.Assemble
import TypedContent.Source.Block
import TypedContent.Source.Member
import TypedContent.Source.Pattern

/-!
# Schemas as declaration text

A server can describe its own schema in TypeScript:

    export interface ApiItemItem extends Struct.CollectionTypeSchema {
    attributes: { title: Schema.Attribute.String &
    Schema.Attribute.Required; category:
    Schema.Attribute.Relation<'manyToOne', 'api::category.category'>; }; }

An interface declares an entity when the last segment of its base is a
schema base. Its UID is listed in a registry block, which maps UIDs to
interfaces, or follows from its name. A field's type is an intersection of a
*constructor*, which gives the kind, and *modifiers*. The kind of any other
expression is its first part that is no modifier, which leaves it to be
dropped later.
-/

namespace TypedContent

/-- The declaration texts of content types and components. Either may hold
both. -/
structure DeclarationText where
  contentTypes : String
  components : String := ""
deriving DecidableEq, Repr

namespace Declared

/-! ## Registries -/

/-- The header of a registry block, up to its opening brace. -/
def registryHeader : Source.Pattern Unit := fun before cs => do
  let rest ← (Source.word? "ContentTypeSchemas" cs).or
      (Source.word? "ComponentSchemas" cs)
  let rest ← Source.char? '{' (Text.trimStart rest)
  if Text.isBoundary before cs.head? then return ((), rest) else none

/-- The UIDs that a text registers, by the name of their interface. -/
def registered (cs : List Char) : List (String × String) :=
  (registryHeader.found cs).flatMap fun ((), rest) =>
    match Source.openedBlock? '{' (Source.marks rest) with
    | none => []
    | some block =>
      (Source.members block.inner).map fun m =>
        (String.ofList (Text.trim m.value), String.ofList m.name)

/-! ## Interfaces -/

/-- The kind of entity that an interface with this base declares. -/
def baseKind? (base : List Char) : Option EntityKind :=
  match String.ofList (Text.afterLast '.' base) with
  | "CollectionTypeSchema" | "CollectionType" => some .collection
  | "SingleTypeSchema" | "SingleType" => some .single
  | "ComponentSchema" | "Component" => some .component
  | _ => none

/-- The name and the base of an interface, up to its opening brace. -/
def interfaceHeader : Source.Pattern (List Char × List Char) := fun _ cs => do
  let cs ← Source.blanks? (← Source.word? "interface" cs)
  let (name, cs) ← Source.name? cs
  let cs ← Source.blanks? (← Source.word? "extends" (← Source.blanks? cs))
  let (base, cs) ← Source.run? (fun c => Text.isWord c || c == '.') cs
  return ((name, base), ← Source.char? '{' (Text.trimStart cs))

structure Interface where
  name : String
  kind : EntityKind
  body : List Char
deriving DecidableEq, Repr

/-- The schema interfaces of a text. One whose braces do not match makes the
whole text unreadable. -/
def interfaces (cs : List Char) : Except Error (List Interface) := do
  let found ← (interfaceHeader.found cs).mapM fun ((name, base), rest) =>
    match baseKind? base with
    | none => .ok none
    | some kind =>
      match Source.openedBlock? '{' (Source.marks rest) with
      | none => .error (.unbalancedInterface (String.ofList name))
      | some block =>
        .ok (some { name := String.ofList name, kind, body := block.inner : Interface })
  return found.filterMap id

/-! ## Fields -/

/-- The constructors of plain values. The kind of each is its name in lower
case. -/
def scalarConstructors : List String :=
  ["String", "Text", "RichText", "Blocks", "Email", "Integer", "BigInteger", "Float",
    "Decimal", "Boolean", "Date", "DateTime", "Time", "JSON"]

/-- The constructors that determine the kind of a field. -/
def constructors : List String :=
  ["Relation", "Component", "DynamicZone", "Media", "Enumeration"] ++ scalarConstructors

/-- Names that never determine the kind of a field. -/
def modifiers : List String :=
  ["Required", "Private", "Unique", "DefaultTo", "SetMinMax", "SetMinMaxLength",
    "SetPluginOptions", "Configurable", "Writable", "Visible", "NonConfigurable",
    "NonWritable", "NonVisible", "Localized", "Pluggable"]

/-- A part of a field's type: the last segment of its name and its type
arguments. -/
structure TypePart where
  name : String
  args : List (List Char)
deriving DecidableEq, Repr

def typePart? (cs : List Char) : Option TypePart :=
  (Source.genericParts? cs).map fun (path, args) =>
    ⟨String.ofList (Text.afterLast '.' path), args⟩

/-- The part that gives the kind: the first constructor, else the first part
that is no modifier. -/
def basePart? (parts : List TypePart) : Option TypePart :=
  (parts.find? (constructors.contains ·.name)).or
    (parts.find? (!modifiers.contains ·.name))

def unquoted (cs : List Char) : String :=
  String.ofList (Source.unquote cs)

def isTrue (arg : Option (List Char)) : Bool :=
  arg.any fun cs => Text.trim cs == "true".toList

/-- Fill in what a constructor's arguments say. A relation's arguments are
its kind and target, which the owner may precede. An argument that a
constructor needs and does not have makes the field malformed. -/
def withArguments? (field : DeclaredField) (part : TypePart) : Option DeclaredField :=
  match part.name with
  | "Relation" =>
    match part.args with
    | [kind] => some { field with relation := some (unquoted kind) }
    | [kind, target] | [_, kind, target] =>
      some { field with relation := some (unquoted kind),
                        target := some (unquoted target) }
    | _ => none
  | "Component" =>
    part.args.head?.map fun uid =>
      { field with component := some (unquoted uid),
                   isRepeatable := isTrue part.args[1]? }
  | "DynamicZone" =>
    part.args.head?.map fun list =>
      { field with components := (Source.stringList list).map String.ofList }
  | "Media" => some { field with isMultiple := isTrue part.args[1]? }
  | "Enumeration" =>
    part.args.head?.map fun list =>
      { field with enumValues := (Source.stringList list).map String.ofList }
  | _ => some field

/-- The field of a member of the attributes block. There is none for a
malformed type and none for a type that consists of modifiers only. -/
def field? (name : String) (type : List Char) : Option DeclaredField := do
  let parts ← (Source.parts ['&'] type).mapM typePart?
  let base ← basePart? parts
  let field : DeclaredField :=
    { name
      kind := String.ofList (base.name.toList.map Char.toLower)
      isRequired := parts.any (·.name == "Required")
      isPrivate := parts.any (·.name == "Private") }
  withArguments? field base

/-! ## Entities -/

/-- The entity of an interface; there is none without an attributes
block. -/
def Interface.entity? (registry : Keyed String)
    (i : Interface) : Option DeclaredEntity := do
  let attributes ← Source.memberValue? i.body "attributes".toList
  let block ← Source.block? '{' attributes
  return {
    uid := (registry.find? i.name).getD (Uid.ofInterface i.name (i.kind == .component))
    kind := i.kind
    fields := (Source.members block.inner).filterMap fun m =>
      field? (String.ofList m.name) m.value }

end Declared

namespace DeclarationText

/-- The schema of declaration texts. -/
def schema (t : DeclarationText) (filter : Filter) : Except Error Schema := do
  let contentTypes := t.contentTypes.toList
  let components := t.components.toList
  let interfaces :=
    (← Declared.interfaces contentTypes) ++ (← Declared.interfaces components)
  if interfaces = [] then throw .noInterfaces
  let registry :=
    Keyed.ofList (Declared.registered contentTypes ++ Declared.registered components)
  let declared := interfaces.filterMap (·.entity? registry)
  return Schema.assemble (declared.filter (·.kind == .component))
    (declared.filter (·.kind != .component))
    filter

end DeclarationText

end TypedContent
