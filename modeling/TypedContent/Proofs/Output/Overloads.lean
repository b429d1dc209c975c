import TypedContent.Output.EntityClass
import TypedContent.Proofs.Output.Payload

/-!
# Overloads of reading methods

A call of a reading method is typed by its first overload that admits the
population asked for. This file shows that the overload is the one of the
branch that the payload type takes (`Entity.overloads_take_branches`): the
alias of all populations, the chain of conditionals in the payload type and
the list of overloads agree on the forms of a population and on their order.

`Admits` says which values a type expression has, where names refer to
declarations. Shared types are left open, since nothing here depends on
them.
-/

namespace TypedContent

open List TypeScript

variable {name : String}

namespace TypeScript

/-! ## Values of types -/

/-- A value has a type. Objects have no properties beyond those of their
type. The type of a value is its most precise one, so a list is a tuple. -/
inductive Admits (declared : String → Option Declaration)
    (shared : TypeExpr → Value → Prop) :
    TypeExpr → Value → Prop
  | literal (l : Literal) : Admits declared shared (.literal l) (.literal l)
  | primitive {kind : Primitive} {v : Value} (h : v.isA kind = true) :
      Admits declared shared (.primitive kind) v
  | union {types : List TypeExpr} {type : TypeExpr} {v : Value} (hmem : type ∈ types)
      (h : Admits declared shared type v) : Admits declared shared (.union types) v
  | key {name : String} {d : Declaration} {p : Property} (hd : declared name = some d)
      (hp : p ∈ d.properties) :
      Admits declared shared (.keyof (.ref name)) (.text p.name)
  | array {item : TypeExpr} {items : List Value}
      (h : ∀ v ∈ items, Admits declared shared item v) :
      Admits declared shared (.array item) (.tuple items)
  | readonlyArray {item : TypeExpr} {items : List Value}
      (h : ∀ v ∈ items, Admits declared shared item v) :
      Admits declared shared (.readonlyArray item) (.tuple items)
  | object {properties : List Property} {fields : Fields}
      (hrequired : ∀ p ∈ properties, p.isOptional = false → p.name ∈ fields.map Prod.fst)
      (hknown : ∀ field ∈ fields, (properties.find? (·.name == field.1)).isSome = true)
      (hfields : ∀ field ∈ fields, ∀ p, properties.find? (·.name == field.1) = some p →
        Admits declared shared p.type field.2) :
      Admits declared shared (.object properties) (.object fields)
  | interface {name : String} {head : Head} {properties : List Property} {v : Value}
      (hd : declared name = some (.interface head [] properties))
      (h : Admits declared shared (.object properties) v) :
      Admits declared shared (.ref name) v
  | typeAlias {name : String} {head : Head} {type : TypeExpr} {v : Value}
      (hd : declared name = some (.typeAlias head type))
      (h : Admits declared shared type v) :
      Admits declared shared (.ref name) v
  /-- A type that is declared elsewhere. -/
  | foreign {name : String} {v : Value} (hd : declared name = none)
      (h : shared (.ref name) v) :
      Admits declared shared (.ref name) v
  | generic {name : String} {args : List TypeExpr} {v : Value}
      (h : shared (.generic name args) v) :
      Admits declared shared (.generic name args) v

section Admits

variable {properties : List Property} {declared : String → Option Declaration}
  {shared : TypeExpr → Value → Prop} {v : Value}

theorem admits_literal {l : Literal} :
    Admits declared shared (.literal l) v ↔ v = .literal l := by
  constructor
  · rintro ⟨⟩
    rfl
  · rintro rfl
    exact .literal l

theorem admits_union {types : List TypeExpr} :
    Admits declared shared (.union types) v
      ↔ ∃ type ∈ types, Admits declared shared type v := by
  constructor
  · rintro ⟨⟩
    exact ⟨_, ‹_›, ‹_›⟩
  · rintro ⟨type, hmem, h⟩
    exact .union hmem h

theorem eq_tuple_of_admits {item : TypeExpr}
    (h : Admits declared shared (.readonlyArray item) v) :
    ∃ items, v = .tuple items := by
  cases h
  exact ⟨_, rfl⟩

theorem eq_object_of_admits (h : Admits declared shared (.object properties) v) :
    ∃ fields, v = .object fields := by
  cases h
  exact ⟨_, rfl⟩

/-- Objects of a type without required properties. -/
theorem admits_optional {fields : Fields}
    (hoptional : ∀ p ∈ properties, p.isOptional = true)
    (hfields : ∀ field ∈ fields, ∃ p, properties.find? (·.name == field.1) = some p
      ∧ Admits declared shared p.type field.2) :
    Admits declared shared (.object properties) (.object fields) := by
  refine .object (fun p hp hrequired => ?_)
    (fun field hfield => ?_) fun field hfield p hp => ?_
  · cases (hoptional p hp).symm.trans hrequired
  · obtain ⟨p, hp, -⟩ := hfields field hfield
    rw [hp]
    rfl
  · obtain ⟨p', hp', hadmits⟩ := hfields field hfield
    obtain rfl := Option.some.inj (hp.symm.trans hp')
    exact hadmits

theorem admits_interface {head : Head}
    (hd : declared name = some (.interface head [] properties)) :
    Admits declared shared (.ref name) v
      ↔ Admits declared shared (.object properties) v := by
  constructor
  · intro h
    cases h with
    | interface hd' h =>
      obtain ⟨-, -, rfl⟩ :=
        Declaration.interface.inj (Option.some.inj (hd.symm.trans hd'))
      exact h
    | typeAlias hd' h => cases hd.symm.trans hd'
    | foreign hd' h => cases hd.symm.trans hd'
  · exact .interface hd

theorem admits_typeAlias {head : Head} {type : TypeExpr}
    (hd : declared name = some (.typeAlias head type)) :
    Admits declared shared (.ref name) v ↔ Admits declared shared type v := by
  constructor
  · intro h
    cases h with
    | interface hd' h => cases hd.symm.trans hd'
    | typeAlias hd' h =>
      obtain ⟨-, rfl⟩ := Declaration.typeAlias.inj (Option.some.inj (hd.symm.trans hd'))
      exact h
    | foreign hd' h => cases hd.symm.trans hd'
  · exact .typeAlias hd

end Admits

/-! ## Branches -/

/-- The branch that a type takes in a chain of conditionals on it: that of
the first pattern it matches. -/
def branchIndex (call : String → List Value → Option Value) (env : Env)
    (value : Value) : TypeExpr → Nat
  | .conditional _ pattern _ otherwise =>
    if ((evalWith call env pattern).bind (·.match? value.members)).isSome then 0
    else branchIndex call env value otherwise + 1
  | _ => 0

/-! ## Overloads -/

/-- The type of a property that an intersection of types spells out. -/
def TypeExpr.spelledOut? (name : String) : TypeExpr → Option TypeExpr
  | .intersection types => types.findSome? fun
    | .object properties => (properties.find? (·.name == name)).map Property.type
    | _ => none
  | _ => none

namespace Signature

/-- The type of the population in the query of a reading method. -/
def populateType? (s : Signature) : Option TypeExpr := do
  let query ← s.parameters.find? (·.name == "params")
  (← query.type).spelledOut? "populate"

/-- The type parameter that stands for the population, if there is one. -/
def specVariable? (s : Signature) : Option TypeParameter := do
  match ← s.populateType? with
  | .ref name => s.typeParameters.find? (·.name == name)
  | _ => none

/-- What a population has to be: the constraint on the type parameter that
stands for it, or its type. -/
def constraint? (s : Signature) : Option TypeExpr :=
  match s.specVariable? with
  | some p => p.constraint
  | none => s.populateType?

/-- A population is admitted by an overload. -/
def AdmitsPopulation (admits : TypeExpr → Value → Prop) (s : Signature)
    (v : Value) : Prop :=
  ∃ type, s.constraint? = some type ∧ admits type v

end Signature

/-- The first overload that admits a population has this index. -/
def ResolvesTo (admits : TypeExpr → Value → Prop) (overloads : List Signature)
    (v : Value) (i : Nat) : Prop :=
  (∃ s, overloads[i]? = some s ∧ s.AdmitsPopulation admits v)
    ∧ ∀ j < i, ∀ s, overloads[j]? = some s → ¬ s.AdmitsPopulation admits v

end TypeScript

/-! ## Reading methods -/

/-- The names of the reading methods, and what each makes of the type that
is read. -/
def EntityKind.readers : EntityKind → List (String × (TypeExpr → TypeExpr))
  | .single => [("find", id)]
  | .collection | .component =>
    [("find", .array), ("findWithMeta", listResponse), ("findOne", .nullable)]

/-- The declarations that names refer to in types for an entity; its own
ones come first. -/
def Entity.declared? (e : Entity) (schema : Schema) (routes : RouteSet)
    (name : String) : Option Declaration :=
  (e.declarations schema
    ++ (typeDeclarations schema routes ++ [SharedTypes.mediaFileInterface])).find?
    (·.name == name)

/-- The overloads of a method that reads an entity agree with its payload
type. -/
structure Entity.AgreesWithPayload (e : Entity) (schema : Schema)
    (admits : TypeExpr → Value → Prop) (wrap : TypeExpr → TypeExpr)
    (overloads : List Signature) : Prop where
  /-- A population is typed by the overload of the branch that the payload
  type takes for it. -/
  branch : ∀ (call : String → List Value → Option Value) (v : Value),
    admits (.ref (TypeName.populate e.typeName)) v →
      branchIndex call [(specParameter, v)] v (e.payload schema) < 3
        ∧ ResolvesTo admits overloads v
          (branchIndex call [(specParameter, v)] v (e.payload schema))
  /-- The overloads of the branches admit every population, and nothing
  else. -/
  exhaustive : ∀ v, admits (.ref (TypeName.populate e.typeName)) v
    ↔ ∃ s ∈ overloads.take 3, s.AdmitsPopulation admits v
  /-- Each of them gives back the payload of its own population. -/
  payload : ∀ s ∈ overloads.take 3, ∃ p, s.specVariable? = some p
    ∧ s.returns = some
      (promise (wrap (.generic (TypeName.withPopulate e.typeName) [.ref p.name])))
  /-- The last overload takes every population and gives back the base
  type. -/
  fallback : ∃ s, overloads.drop 3 = [s]
    ∧ s.constraint? = some (.ref (TypeName.populate e.typeName))
    ∧ s.returns = some (promise (wrap (.ref e.typeName)))

section Populatable

variable {i : Nat} {e : Entity} {schema : Schema}

/-- Where all declarations have different names, it does not matter which
ones come first. -/
theorem Entity.declared?_eq {routes : RouteSet} (he : e ∈ schema.all)
    (hnodup : ((typeDeclarations schema routes ++ [SharedTypes.mediaFileInterface]).map
      Declaration.name).Nodup)
    (name : String) :
    e.declared? schema routes name
      = (typeDeclarations schema routes ++ [SharedTypes.mediaFileInterface]).find?
        (·.name == name) := by
  rw [Entity.declared?, find?_append]
  cases hown : (e.declarations schema).find? (·.name == name) with
  | none => rfl
  | some d =>
    obtain rfl : d.name = name := by simpa using find?_some hown
    have hmem : d ∈ typeDeclarations schema routes ++ [SharedTypes.mediaFileInterface] :=
      mem_append_left _
        (mem_append_left _ (mem_flatMap.2 ⟨e, he, mem_of_find?_eq_some hown⟩))
    exact (find?_of_mem hnodup hmem).symm

/-- The declarations of an entity that can be populated have different
names. -/
theorem Entity.declarations_nodup (h : e.isPopulatable = true) :
    ((e.declarations schema).map Declaration.name).Nodup := by
  have hnames : (e.declarations schema).map Declaration.name
      = ["", "Input", "PopulateParam", "Populate", "WithPopulate", "Filters"].map
        (e.typeName ++ ·) := by
    rw [Entity.declarations, if_pos h, map_cons, String.append_empty]
    rfl
  have hinjective : Function.Injective (e.typeName ++ · : String → String) := by
    intro s t heq
    have hlist := congrArg String.toList heq
    simp only [String.toList_append] at hlist
    exact String.toList_injective (append_cancel_left hlist)
  rw [hnames]
  exact List.Nodup.map hinjective (by decide)

theorem Entity.declared?_of_mem (h : e.isPopulatable = true) (routes : RouteSet)
    {d : Declaration} (hd : d ∈ e.declarations schema) :
    e.declared? schema routes d.name = some d := by
  rw [Entity.declared?, find?_append, find?_of_mem (e.declarations_nodup h) hd]
  rfl

/-! ## Forms of a population -/

/-- A wildcard, a list of field names or an object with options. -/
def HasForm : Nat → Value → Prop
  | 0, v => v = .text "*" ∨ v = .literal (.bool true)
  | 1, v => ∃ items, v = .tuple items
  | 2, v => ∃ fields, v = .object fields
  | _, _ => False

/-- The payload type branches by the form. -/
theorem HasForm.branchIndex_eq {v : Value} (h : HasForm i v)
    (call : String → List Value → Option Value) (env : Env) :
    branchIndex call env v (e.payload schema) = i := by
  match i, h with
  | 0, h => rcases h with rfl | rfl <;> rfl
  | 1, h =>
    obtain ⟨items, rfl⟩ := h
    rfl
  | 2, h =>
    obtain ⟨fields, rfl⟩ := h
    rfl

/-- The constraints on the type parameters of the overloads. -/
def Entity.specConstraints (e : Entity) : List TypeExpr :=
  [wildcard, fieldList e.typeName, .ref (TypeName.populateParam e.typeName)]

section Forms

variable (h : e.isPopulatable = true) (routes : RouteSet)
  (shared : TypeExpr → Value → Prop)

include h

theorem Entity.admits_populate {v : Value} :
    Admits (e.declared? schema routes) shared (.ref (TypeName.populate e.typeName)) v
      ↔ ∃ type ∈ e.specConstraints, Admits (e.declared? schema routes) shared type v := by
  have hmem : e.populateAlias ∈ e.declarations schema := by simp [Entity.declarations, h]
  have hd :
      e.declared? schema routes (TypeName.populate e.typeName) = some e.populateAlias :=
    e.declared?_of_mem h routes hmem
  rw [admits_typeAlias hd]
  exact admits_union

/-- Each constraint admits populations of one form only. -/
theorem Entity.hasForm_of_admits {type : TypeExpr}
    (htype : e.specConstraints[i]? = some type) {v : Value}
    (hv : Admits (e.declared? schema routes) shared type v) :
    HasForm i v := by
  match i, htype with
  | 0, rfl =>
    obtain ⟨type, hmem, hv⟩ := admits_union.1 hv
    rcases mem_cons.1 hmem with rfl | hmem
    · exact .inl (admits_literal.1 hv)
    · obtain rfl := mem_singleton.1 hmem
      exact .inr (admits_literal.1 hv)
  | 1, rfl => exact eq_tuple_of_admits hv
  | 2, rfl =>
    have hmem : e.populateParam schema ∈ e.declarations schema := by
      simp [Entity.declarations, h]
    have hd : e.declared? schema routes (TypeName.populateParam e.typeName)
        = some (e.populateParam schema) :=
      e.declared?_of_mem h routes hmem
    exact eq_object_of_admits ((admits_interface hd).1 hv)

end Forms

/-! ## Overloads -/

section Overloads

variable {leading : List Parameter} (hleading : ∀ p ∈ leading, p.name ≠ "params")
  (wrap : TypeExpr → TypeExpr)

include hleading

/-- The query comes last. -/
theorem find?_query {query : Parameter} (hquery : query.name = "params") :
    (leading ++ [query]).find? (·.name == "params") = some query := by
  have hnone : leading.find? (·.name == "params") = none := by
    rw [find?_eq_none]
    intro p hp
    simpa using hleading p hp
  rw [find?_append, hnone]
  simp [hquery]

theorem Entity.specVariable?_populatedSignature (e : Entity) (constraint : TypeExpr)
    (isConst : Bool) :
    (e.populatedSignature leading wrap constraint isConst).specVariable?
      = some { name := specParameter, constraint := some constraint, isConst } := by
  simp only [Signature.specVariable?, Signature.populateType?,
    Entity.populatedSignature, find?_query hleading, Parameter.required]
  rfl

theorem Entity.constraint?_populatedSignature (e : Entity) (constraint : TypeExpr)
    (isConst : Bool) :
    (e.populatedSignature leading wrap constraint isConst).constraint?
      = some constraint := by
  rw [Signature.constraint?, e.specVariable?_populatedSignature hleading]

theorem Entity.constraint?_fallbackSignature (e : Entity) :
    (e.fallbackSignature leading wrap).constraint?
      = some (.ref (TypeName.populate e.typeName)) := by
  simp only [Signature.constraint?, Signature.specVariable?, Signature.populateType?,
    Entity.fallbackSignature, signature, find?_query hleading, Parameter.optional]
  rfl

theorem Entity.map_constraint?_readOverloads (h : e.isPopulatable = true) :
    ((e.readOverloads leading wrap).take 3).map Signature.constraint?
      = e.specConstraints.map some := by
  rw [Entity.readOverloads, if_pos h]
  simp only [take_succ_cons, take_zero, map_cons, map_nil,
    e.constraint?_populatedSignature hleading]
  rfl

theorem Entity.constraint?_readOverloads (h : e.isPopulatable = true) (hi : i < 3)
    {s : Signature} (hs : (e.readOverloads leading wrap)[i]? = some s) :
    s.constraint? = e.specConstraints[i]? := by
  have hget := congrArg (·[i]?) (e.map_constraint?_readOverloads hleading wrap h)
  simp only [getElem?_map, getElem?_take_of_lt hi, hs, Option.map_some] at hget
  cases htype : e.specConstraints[i]? with
  | none =>
    rw [htype] at hget
    cases hget
  | some type =>
    rw [htype] at hget
    exact Option.some.inj hget

theorem Entity.branch_readOverloads (h : e.isPopulatable = true) (routes : RouteSet)
    (shared : TypeExpr → Value → Prop) (call : String → List Value → Option Value)
    (env : Env) {v : Value}
    (hv : Admits (e.declared? schema routes) shared
      (.ref (TypeName.populate e.typeName)) v) :
    branchIndex call env v (e.payload schema) < 3
      ∧ ResolvesTo (Admits (e.declared? schema routes) shared)
        (e.readOverloads leading wrap) v
          (branchIndex call env v (e.payload schema)) := by
  obtain ⟨type, htype, hv⟩ := (e.admits_populate h routes shared).1 hv
  obtain ⟨i, hi⟩ := getElem?_of_mem htype
  have hlt : i < 3 := (List.getElem?_eq_some_iff.1 hi).1
  have hindex : branchIndex call env v (e.payload schema) = i :=
    (e.hasForm_of_admits h routes shared hi hv).branchIndex_eq call env
  rw [hindex]
  refine ⟨hlt, ?_, fun j hj s hs => ?_⟩
  · have hlength : (e.readOverloads leading wrap).length = 4 := by
      rw [Entity.readOverloads, if_pos h]
      rfl
    obtain ⟨s, hs⟩ : ∃ s, (e.readOverloads leading wrap)[i]? = some s :=
      ⟨_, getElem?_eq_getElem (by omega)⟩
    exact ⟨s, hs, type, (e.constraint?_readOverloads hleading wrap h hlt hs).trans hi, hv⟩
  · -- by an earlier overload the population would have another form
    rintro ⟨type', hconstraint, hv'⟩
    rw [e.constraint?_readOverloads hleading wrap h (Nat.lt_trans hj hlt) hs]
      at hconstraint
    have hindex' : branchIndex call env v (e.payload schema) = j :=
      (e.hasForm_of_admits h routes shared hconstraint hv').branchIndex_eq call env
    omega

theorem Entity.exhaustive_readOverloads (h : e.isPopulatable = true) (routes : RouteSet)
    (shared : TypeExpr → Value → Prop) (v : Value) :
    Admits (e.declared? schema routes) shared (.ref (TypeName.populate e.typeName)) v
      ↔ ∃ s ∈ (e.readOverloads leading wrap).take 3,
          s.AdmitsPopulation (Admits (e.declared? schema routes) shared) v := by
  have hmem : ∀ type, type ∈ e.specConstraints
      ↔ ∃ s ∈ (e.readOverloads leading wrap).take 3, s.constraint? = some type := by
    intro type
    rw [← mem_map, e.map_constraint?_readOverloads hleading wrap h]
    simp
  rw [e.admits_populate h routes shared]
  constructor
  · rintro ⟨type, htype, hv⟩
    obtain ⟨s, hs, hconstraint⟩ := (hmem type).1 htype
    exact ⟨s, hs, type, hconstraint, hv⟩
  · rintro ⟨s, hs, type, hconstraint, hv⟩
    exact ⟨type, (hmem type).2 ⟨s, hs, hconstraint⟩, hv⟩

theorem Entity.agrees_readOverloads (h : e.isPopulatable = true) (routes : RouteSet)
    (shared : TypeExpr → Value → Prop) :
    e.AgreesWithPayload schema (Admits (e.declared? schema routes) shared) wrap
      (e.readOverloads leading wrap) where
  branch :=
    fun call _ hv => e.branch_readOverloads hleading wrap h routes shared call _ hv
  exhaustive := e.exhaustive_readOverloads hleading wrap h routes shared
  payload := by
    intro s hs
    rw [Entity.readOverloads, if_pos h] at hs
    simp only [take_succ_cons, take_zero, mem_cons, not_mem_nil, or_false] at hs
    rcases hs with rfl | rfl | rfl <;>
      exact ⟨_, e.specVariable?_populatedSignature hleading wrap _ _, rfl⟩
  fallback := by
    rw [Entity.readOverloads, if_pos h]
    exact ⟨_, rfl, e.constraint?_fallbackSignature hleading wrap, rfl⟩

end Overloads

end Populatable

/-! ## Classes -/

section Class

theorem filterMap_method? (methods : List Method) :
    (methods.map ClassMember.method).filterMap ClassMember.method? = methods := by
  rw [filterMap_map]
  exact filterMap_some

variable (e : Entity) (routes : RouteSet)

theorem Entity.methods_standardClass :
    (e.standardClass routes).methods = e.standardMethods :=
  filterMap_method? e.standardMethods

/-- Every reading method is there, with the overloads of its wrapper. -/
theorem Entity.exists_readMethod {r : String × (TypeExpr → TypeExpr)}
    (hr : r ∈ e.kind.readers) :
    ∃ (m : Method) (leading : List Parameter),
      e.standardMethods.find? (·.name == r.1) = some m
      ∧ m.overloads = e.readOverloads leading r.2 ∧ ∀ p ∈ leading, p.name ≠ "params" := by
  have hid : ∀ p ∈ [idParameter], p.name ≠ "params" := by
    intro p hp
    obtain rfl := mem_singleton.1 hp
    decide
  have hnone : ∀ p ∈ ([] : List Parameter), p.name ≠ "params" := fun _ hp => nomatch hp
  unfold Entity.standardMethods
  cases hkind : e.kind with
  | single =>
    rw [hkind] at hr
    obtain rfl := mem_singleton.1 hr
    exact ⟨_, [], rfl, rfl, hnone⟩
  | _ =>
    rw [hkind] at hr
    rcases mem_cons.1 hr with rfl | hr
    · exact ⟨_, [], rfl, rfl, hnone⟩
    rcases mem_cons.1 hr with rfl | hr
    · exact ⟨_, [], rfl, rfl, hnone⟩
    obtain rfl := mem_singleton.1 hr
    exact ⟨_, [idParameter], rfl, rfl, hid⟩

/-! ## Entities without fields to populate -/

/-- The types that the class of an entity without fields to populate may
refer to. -/
def Entity.plainNames (e : Entity) : List String :=
  [e.typeName, TypeName.filters e.typeName, TypeName.input e.typeName, "BaseAPI",
    "ClientConfig", "Promise", "QueryParams", "ListResponse",
    "SingleResponse", "Partial"]

section Plain

variable (h : e.isPopulatable = false)

include h

theorem Entity.readMethod_plain (name : String) (leading : List Parameter)
    (wrap : TypeExpr → TypeExpr) (body : List Statement) :
    e.readMethod name leading wrap body
      = asyncMethod name []
          (signature (leading ++ [.optional "params" e.queryType])
            (promise (wrap (.ref e.typeName)))) body := by
  rw [readMethod, readOverloads, readImplementation, h]
  rfl

theorem Entity.overloads_plain : ∀ m ∈ e.standardMethods, m.overloads = [] := by
  have hall : ∀ m ∈ e.collectionMethods ++ e.singleMethods, m.overloads = [] := by
    simp only [collectionMethods, singleMethods, e.readMethod_plain h]
    simp [asyncMethod]
  intro m hm
  unfold standardMethods at hm
  split at hm
  · exact hall m (mem_append_right _ hm)
  all_goals exact hall m (mem_append_left _ hm)

/-- The types that the methods of a collection refer to, method by method:
first in the signature, then in the body. -/
theorem Entity.names_collectionMethods :
    (e.collectionMethods.map ClassMember.method).flatMap ClassMember.names
      = ["QueryParams", e.typeName, TypeName.filters e.typeName, "Promise", e.typeName]
        ++ ["ListResponse", e.typeName]
        ++ ["QueryParams", e.typeName, TypeName.filters e.typeName, "Promise",
          "ListResponse", e.typeName]
        ++ ["ListResponse", e.typeName]
        ++ ["QueryParams", e.typeName, TypeName.filters e.typeName, "Promise", e.typeName]
        ++ ["SingleResponse", e.typeName]
        ++ [TypeName.input e.typeName, "Promise", e.typeName]
          ++ ["SingleResponse", e.typeName]
        ++ ["Partial", TypeName.input e.typeName, "Promise", e.typeName]
          ++ ["SingleResponse", e.typeName]
        ++ ["Promise"] := by
  simp only [collectionMethods, e.readMethod_plain h]
  rfl

theorem Entity.names_singleMethods :
    (e.singleMethods.map ClassMember.method).flatMap ClassMember.names
      = ["QueryParams", e.typeName, TypeName.filters e.typeName, "Promise", e.typeName]
        ++ ["SingleResponse", e.typeName]
        ++ ["Partial", TypeName.input e.typeName, "Promise", e.typeName]
          ++ ["SingleResponse", e.typeName] := by
  simp only [singleMethods, e.readMethod_plain h]
  rfl

theorem Entity.names_standardClass_subset :
    (e.standardClass routes).names ⊆ e.plainNames := by
  have hclass : (e.standardClass routes).names
      = "BaseAPI" :: "ClientConfig"
        :: (e.standardMethods.map ClassMember.method).flatMap ClassMember.names := rfl
  rw [hclass]
  unfold standardMethods plainNames
  split
  · rw [e.names_singleMethods h]
    generalize TypeName.filters e.typeName = filters, TypeName.input e.typeName = input,
      e.typeName = type
    simp only [cons_append, nil_append, cons_subset, nil_subset, mem_cons, true_or,
      or_true, and_true]
  all_goals
    rw [e.names_collectionMethods h]
    generalize TypeName.filters e.typeName = filters, TypeName.input e.typeName = input,
      e.typeName = type
    simp only [cons_append, nil_append, cons_subset, nil_subset, mem_cons, true_or,
      or_true, and_true]

end Plain

/-- The names of types about population. -/
def IsPopulateName (name : String) : Prop :=
  ∃ t, name ∈ [TypeName.populateParam t, TypeName.populate t, TypeName.withPopulate t]

theorem IsPopulateName.suffix (h : IsPopulateName name) :
    "Populate".toList <:+ name.toList ∨ "PopulateParam".toList <:+ name.toList := by
  obtain ⟨t, ht⟩ := h
  simp only [mem_cons, not_mem_nil, or_false] at ht
  rcases ht with rfl | rfl | rfl
  · exact .inr ⟨t.toList, by rw [TypeName.populateParam, String.toList_append]⟩
  · exact .inl ⟨t.toList, by rw [TypeName.populate, String.toList_append]⟩
  · refine .inl ⟨t.toList ++ "With".toList, ?_⟩
    rw [TypeName.withPopulate, String.toList_append, append_assoc]
    rfl

theorem IsPopulateName.getLast? (h : IsPopulateName name) :
    name.toList.getLast? = some 'e' ∨ name.toList.getLast? = some 'm' := by
  rcases h.suffix with ⟨t, ht⟩ | ⟨t, ht⟩
  · rw [← ht, getLast?_append]
    exact .inl rfl
  · rw [← ht, getLast?_append]
    exact .inr rfl

theorem Entity.eq_typeName_of_isPopulateName {n : String} (hn : n ∈ e.plainNames)
    (h : IsPopulateName n) :
    n = e.typeName := by
  have hfilters : (TypeName.filters e.typeName).toList.getLast? = some 's' := by
    rw [TypeName.filters, String.toList_append, getLast?_append]
    rfl
  have hinput : (TypeName.input e.typeName).toList.getLast? = some 't' := by
    rw [TypeName.input, String.toList_append, getLast?_append]
    rfl
  unfold plainNames at hn
  rcases mem_cons.1 hn with rfl | hn
  · rfl
  rcases mem_cons.1 hn with rfl | hn
  · rcases h.getLast? with hlast | hlast <;> cases hfilters.symm.trans hlast
  rcases mem_cons.1 hn with rfl | hn
  · rcases h.getLast? with hlast | hlast <;> cases hinput.symm.trans hlast
  have hconstants :
      ∀ n ∈ ["BaseAPI", "ClientConfig", "Promise", "QueryParams", "ListResponse",
        "SingleResponse",
      "Partial"], ¬ ("Populate".toList <:+ n.toList
        ∨ "PopulateParam".toList <:+ n.toList) := by
    decide
  exact absurd h.suffix (hconstants n hn)

end Class

/-! ## Agreement -/

/-- The portrait of an article's author may be asked for together with the
name. -/
theorem admits_authorWithPortrait (shared : TypeExpr → Value → Prop) :
    Admits (libraryArticle.declared? library {}) shared
      (.ref (TypeName.populate "Article"))
      authorWithPortrait.value := by
  have hname : Admits (libraryArticle.declared? library {}) shared (keysOf "Author")
      (.tuple [.text "name"]) := by
    refine .array fun v hv => ?_
    obtain rfl := mem_singleton.1 hv
    have hbase : libraryArticle.declared? library {} "Author"
        = some libraryAuthor.baseInterface := rfl
    have hproperty :
        Property.required "name" .string ∈ libraryAuthor.baseInterface.properties :=
      mem_of_getElem? (i := 6) rfl
    exact .key hbase hproperty
  have hportrait : Admits (libraryArticle.declared? library {}) shared
      (.ref (TypeName.populate "Author"))
      (.tuple [.text "portrait"]) := by
    have halias : libraryArticle.declared? library {} (TypeName.populate "Author")
        = some libraryAuthor.populateAlias :=
      rfl
    have hparam : libraryArticle.declared? library {} (TypeName.populateParam "Author")
        = some (libraryAuthor.populateParam library) := rfl
    refine (admits_typeAlias halias).2
      (.union (mem_cons_of_mem _ mem_cons_self) (.readonlyArray fun v hv => ?_))
    obtain rfl := mem_singleton.1 hv
    exact .key hparam mem_cons_self
  have hoptions : Admits (libraryArticle.declared? library {}) shared
      (trueOr (targetOptions "Author" true library))
      (.object [("fields", .tuple [.text "name"]),
        ("populate", .tuple [.text "portrait"])]) := by
    refine .union (mem_cons_of_mem _ mem_cons_self)
      (admits_optional (by decide) fun field hfield => ?_)
    rcases mem_cons.1 hfield with rfl | hfield
    · exact ⟨_, rfl, hname⟩
    · obtain rfl := mem_singleton.1 hfield
      exact ⟨_, rfl, hportrait⟩
  have hspec : Admits (libraryArticle.declared? library {}) shared
      (.object [.optional "author" (trueOr (targetOptions "Author" true library))])
        authorWithPortrait.value := by
    refine admits_optional (by simp [Property.optional, Property.isOptional])
      fun field hfield => ?_
    obtain rfl := mem_singleton.1 hfield
    exact ⟨_, rfl, hoptions⟩
  have hparam : Admits (libraryArticle.declared? library {}) shared
      (.ref (TypeName.populateParam "Article"))
      authorWithPortrait.value := .interface rfl hspec
  exact (libraryArticle.admits_populate (by decide) {} shared).2
    ⟨_, mem_of_getElem? (i := 2) rfl, hparam⟩

end TypedContent
