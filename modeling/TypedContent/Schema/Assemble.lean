import TypedContent.Keyed
import TypedContent.Schema.Declared
import TypedContent.Schema.Entity

/-!
# Assembling a schema

Declared entities become a schema in two steps. First it is settled which
UIDs are known, as an entity or as a component; a UID that is declared as
both is an entity. Then the fields of each entity are filtered, put in the
order of their names and sorted into their classes, and a field that leads
to nothing known is dropped. The result does not depend on the order in
which a source lists entities or fields.
-/

namespace TypedContent

/-- The UIDs that fields may lead to. -/
structure Known where
  entities : List String
  components : List String

namespace Known

/-- The type name of a known entity. -/
def entity? (k : Known) (uid : String) : Option String :=
  if k.entities.contains uid then some (Uid.typeName uid) else none

/-- The type name of a known component. -/
def component? (k : Known) (uid : String) : Option String :=
  if k.components.contains uid && !k.entities.contains uid then
    some (Uid.typeName uid) else none

end Known

namespace DeclaredField

def attribute? (f : DeclaredField) : Option Attribute :=
  match f.fieldClass with
  | .scalar type => some ⟨f.name, type, f.isRequired⟩
  | _ => none

/-- A relation of a known kind to an entity that is kept and known. -/
def relation? (known : Known) (filter : Filter) (f : DeclaredField) : Option Relation :=
  match f.fieldClass with
  | .relation => do
    let cardinality ← Cardinality.ofName? (← f.relation)
    let target ← f.target
    if filter.allows target then
      return ⟨f.name, cardinality, target, ← known.entity? target, f.isRequired⟩
    else none
  | _ => none

def media? (f : DeclaredField) : Option MediaField :=
  match f.fieldClass with
  | .media => some ⟨f.name, f.isMultiple, f.isRequired⟩
  | _ => none

def component? (known : Known) (f : DeclaredField) : Option ComponentField :=
  match f.fieldClass with
  | .component => do
    let uid ← f.component
    return ⟨f.name, uid, ← known.component? uid, f.isRepeatable, f.isRequired⟩
  | _ => none

/-- The known components of a dynamic zone, in their order. -/
def variants (known : Known) (f : DeclaredField) : List ZoneVariant :=
  f.components.filterMap fun uid => (known.component? uid).map fun name => ⟨uid, name⟩

/-- A dynamic zone with at least one known component. -/
def zone? (known : Known) (f : DeclaredField) : Option ZoneField :=
  match f.fieldClass with
  | .zone =>
    match f.variants known with
    | [] => none
    | variants => some ⟨f.name, variants, f.isRequired⟩
  | _ => none

end DeclaredField

namespace DeclaredEntity

/-- The fields that are not excluded, in the order of their names. -/
def keptFields (filter : Filter) (e : DeclaredEntity) : List DeclaredField :=
  (sortByKey DeclaredField.name e.fields).filter (!filter.excludes ·)

def assemble (known : Known) (filter : Filter) (kind : EntityKind)
    (e : DeclaredEntity) : Entity :=
  let fields := e.keptFields filter
  { uid := e.uid
    typeName := Uid.typeName e.uid
    kind
    plugin := Uid.plugin? e.uid
    attributes := fields.filterMap (·.attribute?)
    relations := fields.filterMap (·.relation? known filter)
    media := fields.filterMap (·.media?)
    components := fields.filterMap (·.component? known)
    zones := fields.filterMap (·.zone? known) }

end DeclaredEntity

/-- The schema of declared components and entities. -/
def Schema.assemble (components entities : List DeclaredEntity)
    (filter : Filter) : Schema :=
  let components := sortByKey DeclaredEntity.uid components
  let entities :=
    sortByKey DeclaredEntity.uid (entities.filter fun e => filter.allows e.uid)
  let known : Known :=
    ⟨entities.map DeclaredEntity.uid, components.map DeclaredEntity.uid⟩
  { entities := entities.map fun e => e.assemble known filter e.kind
    components := components.map fun e => e.assemble known filter .component }

end TypedContent
