import TypedContent.Output.EntityTypes

/-!
# Population

The server sends the fields that lead beyond an entity only when they are
asked for. For an entity `X` with such fields there are

* `XPopulateParam`, which gives for every such field what may be said about
  it,
* `XPopulate`, every form in which population may be asked for, and
* `XWithPopulate<P>`, the payload when `P` is asked for. It has one branch
  each for a wildcard, a list of field names and an object with options for
  each field, and falls back to `X`.

A populated relation refers to the payload of its target by name, so
entities that lead back to themselves have finite types.
-/

namespace TypedContent

open TypeScript (TypeExpr Property Declaration)

/-- The parameter of a payload type: what is asked for. -/
def specParameter : String :=
  "P"

/-- A field that leads beyond its entity. -/
inductive PopulatedField where
  /-- A relation or an embedded component. Only what a relation leads to may
  be filtered and sorted. -/
  | target (name type : String) (isMany isRelation : Bool)
  | media (name : String) (isMany : Bool)
  | zone (field : ZoneField)
deriving DecidableEq, Repr

def PopulatedField.name : PopulatedField → String
  | target name _ _ _ | media name _ => name
  | zone field => field.name

/-- The fields that lead beyond an entity. -/
def Entity.populatedFields (e : Entity) : List PopulatedField :=
  (e.relations.map fun r => .target r.name r.targetType r.cardinality.isToMany true)
    ++ (e.media.map fun m => .media m.name m.isMultiple)
    ++ (e.components.map fun c => .target c.name c.componentType c.isRepeatable false)
    ++ e.zones.map .zone

/-! ## What may be asked for -/

def keysOf (type : String) : TypeExpr :=
  .array (.keyof (.ref type))

def trueOr (options : List Property) : TypeExpr :=
  .union [.literal (.bool true), .object options]

/-- `"*"` or `true`. -/
def wildcard : TypeExpr :=
  .union [.text "*", .literal (.bool true)]

/-- The names of fields that an entity can populate, in a list. -/
def fieldList (typeName : String) : TypeExpr :=
  .readonlyArray (.keyof (.ref (TypeName.populateParam typeName)))

/-- The options for a field that leads to `type`. -/
def targetOptions (type : String) (isRelation : Bool) (schema : Schema) : List Property :=
  .optional "fields" (keysOf type)
    :: (if schema.isPopulatable type then
      [.optional "populate" (.ref (TypeName.populate type))] else [])
    ++ if isRelation then
        [.optional "filters" (.ref (TypeName.filters type)),
          .optional "sort" (.generic "SortParam" [.ref type]),
          .optional "pagination" (.ref "PaginationParams")]
      else []

/-- What may be said about the population of a field. -/
def PopulatedField.paramType (schema : Schema) : PopulatedField → TypeExpr
  | target _ type _ isRelation => trueOr (targetOptions type isRelation schema)
  | media _ _ => trueOr [.optional "fields" (keysOf "MediaFile")]
  | zone field =>
    trueOr [.optional "on" (.object (field.variants.map fun v =>
      .optional v.uid (trueOr (targetOptions v.componentType false schema))))]

namespace Entity

def populateParam (e : Entity) (schema : Schema) : Declaration :=
  .interface { name := TypeName.populateParam e.typeName } []
    (e.populatedFields.map fun f => .optional f.name (f.paramType schema))

def populateAlias (e : Entity) : Declaration :=
  .typeAlias { name := TypeName.populate e.typeName }
    (.union [wildcard, fieldList e.typeName, .ref (TypeName.populateParam e.typeName)])

end Entity

/-! ## What is sent -/

def singleProperty (name : String) (type : TypeExpr) : TypeExpr :=
  .object [.required name type]

/-- The fields of `target` that the options in the variable `spec`
select. -/
def selectFields (target spec : String) : TypeExpr :=
  .generic "SelectFields" [.ref target, .ref spec]

/-- What `target` becomes under the options in the variable `spec`: the
selected fields and, if it can be populated itself, what its own payload
adds. -/
def selected (target spec : String) (schema : Schema) : TypeExpr :=
  if schema.isPopulatable target then
    .intersection [selectFields target spec,
      .conditional (.ref spec) (singleProperty "populate" (.infer "Q"))
        (.generic "Omit" [.generic (TypeName.withPopulate target) [.ref "Q"],
          .keyof (.ref target)])
        .emptyObject]
  else selectFields target spec

namespace PopulatedField

/-- The value of a field that is populated without options. -/
def oneLevel : PopulatedField → TypeExpr
  | target _ type isMany _ => oneOrMany (.ref type) isMany
  | media _ isMany => oneOrMany (.ref "MediaFile") isMany
  | zone field =>
    .array (.union (field.variants.map fun v =>
      taggedVariant (.ref v.componentType) v.uid))

/-- The value of a field that is populated with the options in the variable
`S`. A zone has options for each of its variants. -/
def nested (schema : Schema) : PopulatedField → TypeExpr
  | target _ type isMany _ => oneOrMany (selected type "S" schema) isMany
  | media _ isMany => oneOrMany (selectFields "MediaFile" "S") isMany
  | zone field =>
    .array (.union (field.variants.map fun v =>
      taggedVariant
        (.conditional (.ref "S") (singleProperty "on" (singleProperty v.uid (.infer "V")))
          (selected v.componentType "V" schema) (.ref v.componentType))
        v.uid))

/-- The field if its name is in the union `K`. -/
def ifListed (f : PopulatedField) : TypeExpr :=
  .conditional (.text f.name) (.ref "K") (singleProperty f.name f.oneLevel) .emptyObject

/-- The field if what is asked for has an entry for it. -/
def ifKeyed (schema : Schema) (f : PopulatedField) : TypeExpr :=
  .conditional (.ref specParameter) (singleProperty f.name (.infer "S"))
    (singleProperty f.name (f.nested schema)) .emptyObject

end PopulatedField

/-- The base type extended by further parts. -/
def withBase (base : String) (parts : List TypeExpr) : TypeExpr :=
  .intersection (.ref base :: parts)

namespace Entity

/-- The payload of an entity, depending on what is asked for. -/
def payload (e : Entity) (schema : Schema) : TypeExpr :=
  let fields := e.populatedFields
  .conditional (.ref specParameter) wildcard
    (withBase e.typeName [.object (fields.map fun f => .required f.name f.oneLevel)])
    (.conditional (.ref specParameter) (.readonlyArray (.infer "K"))
      (withBase e.typeName (fields.map (·.ifListed)))
      (.conditional (.ref specParameter) (.primitive .object)
        (withBase e.typeName (fields.map (·.ifKeyed schema)))
        (.ref e.typeName)))

def payloadAlias (e : Entity) (schema : Schema) : Declaration :=
  .typeAlias { name := TypeName.withPopulate e.typeName,
               typeParameters := [{ name := specParameter }] }
    (e.payload schema)

end Entity

end TypedContent
