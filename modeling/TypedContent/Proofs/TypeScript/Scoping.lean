import TypedContent.TypeScript.Syntax

/-!
# Names in scope

A name in a type refers to the innermost binder around it, or to a
declaration when no binder has it. There are two kinds of binders: the type
parameters of a declaration are in scope in all of it, and the variables
that the pattern of a conditional infers are in scope in its first branch
only. `TypeExpr.freeNames` lists the names that no binder accounts for, and
a type is `Closed` when all of those are known. The lemmas take `Closed`
apart, constructor by constructor; only the one for conditionals changes the
scope.
-/

namespace TypedContent

open List

namespace TypeScript

namespace TypeExpr

mutual

/-- The variables that a pattern binds. A conditional inside of a pattern
keeps those of its own pattern. -/
def inferred : TypeExpr → List String
  | primitive _ | literal _ | ref _ | raw _ => []
  | infer name => [name]
  | array item | readonlyArray item | keyof item => inferred item
  | union members | intersection members => inferredOfTypes members
  | object properties => inferredOfProperties properties
  | record key value => inferred key ++ inferred value
  | generic _ args => inferredOfTypes args
  | conditional check _ matched otherwise =>
    inferred check ++ inferred matched ++ inferred otherwise

def inferredOfTypes : List TypeExpr → List String
  | [] => []
  | type :: types => inferred type ++ inferredOfTypes types

def inferredOfProperties : List Property → List String
  | [] => []
  | .mk _ type _ :: properties => inferred type ++ inferredOfProperties properties

end

mutual

/-- The names that a type refers to and no binder in `scope` accounts for,
from left to right. -/
def freeNames (scope : List String) : TypeExpr → List String
  | primitive _ | literal _ | infer _ | raw _ => []
  | array item | readonlyArray item | keyof item => freeNames scope item
  | union members | intersection members => freeNamesOfTypes scope members
  | object properties => freeNamesOfProperties scope properties
  | record key value => freeNames scope key ++ freeNames scope value
  | ref name => [name].filter (· ∉ scope)
  | generic name args => [name].filter (· ∉ scope) ++ freeNamesOfTypes scope args
  | conditional check pattern matched otherwise =>
    freeNames scope check ++ freeNames scope pattern
      ++ freeNames (pattern.inferred ++ scope) matched
      ++ freeNames scope otherwise

def freeNamesOfTypes (scope : List String) : List TypeExpr → List String
  | [] => []
  | type :: types => freeNames scope type ++ freeNamesOfTypes scope types

def freeNamesOfProperties (scope : List String) : List Property → List String
  | [] => []
  | .mk _ type _ :: properties =>
    freeNames scope type ++ freeNamesOfProperties scope properties

end

end TypeExpr

/-- The names in the constraints and defaults of the type parameters, which
see each other. -/
def Head.freeNames (h : Head) : List String :=
  TypeExpr.freeNamesOfTypes (h.typeParameters.map TypeParameter.name)
    (h.typeParameters.flatMap fun p => p.constraint.toList ++ p.default.toList)

namespace Declaration

mutual

/-- The names that a declaration refers to and does not bind itself. -/
def freeNames : Declaration → List String
  | interface head bases properties =>
    let scope := head.typeParameters.map TypeParameter.name
    head.freeNames ++ TypeExpr.freeNamesOfTypes scope bases
      ++ TypeExpr.freeNamesOfProperties scope properties
  | typeAlias head type =>
    head.freeNames ++ type.freeNames (head.typeParameters.map TypeParameter.name)
  | scope head members => head.freeNames ++ freeNamesOfMembers members

def freeNamesOfMembers : List Declaration → List String
  | [] => []
  | d :: ds => freeNames d ++ freeNamesOfMembers ds

end

/-- Whether a declaration can be referred to as a type, as namespaces
cannot. -/
def isType : Declaration → Bool
  | interface .. | typeAlias .. => true
  | scope .. => false

end Declaration

/-- The types that a module declares, apart from those in its namespaces. -/
def Module.typeNames (m : Module) : List String :=
  (m.declarations.filter Declaration.isType).map Declaration.name

/-! ## Closed types -/

namespace TypeExpr

/-- Every name in the type has a binder or is known. -/
def Closed (known : String → Prop) (scope : List String) (type : TypeExpr) : Prop :=
  ∀ name ∈ type.freeNames scope, known name

section Constructors

attribute [local simp] freeNames freeNamesOfTypes freeNamesOfProperties

variable {known : String → Prop} {scope : List String}

@[simp] theorem closed_primitive (kind : Primitive) :
    Closed known scope (primitive kind) := by
  simp [Closed]

@[simp] theorem closed_literal (value : Literal) :
    Closed known scope (literal value) := by
  simp [Closed]

@[simp] theorem closed_infer (name : String) : Closed known scope (infer name) := by
  simp [Closed]

@[simp] theorem closed_array (item : TypeExpr) :
    Closed known scope (array item) ↔ Closed known scope item := by
  rw [Closed, freeNames, Closed]

@[simp] theorem closed_readonlyArray (item : TypeExpr) :
    Closed known scope (readonlyArray item) ↔ Closed known scope item := by
  rw [Closed, freeNames, Closed]

@[simp] theorem closed_keyof (item : TypeExpr) :
    Closed known scope (keyof item) ↔ Closed known scope item := by
  rw [Closed, freeNames, Closed]

@[simp] theorem closed_ref (name : String) :
    Closed known scope (ref name) ↔ name ∈ scope ∨ known name := by
  by_cases hbound : name ∈ scope <;> simp [Closed, hbound]

theorem closed_types {types : List TypeExpr} :
    (∀ name ∈ freeNamesOfTypes scope types, known name)
      ↔ ∀ type ∈ types, Closed known scope type := by
  induction types with
  | nil => simp
  | cons type types ih =>
    simp only [freeNamesOfTypes, mem_append, or_imp, forall_and, ih,
      forall_mem_cons, Closed]

theorem closed_properties {properties : List Property} :
    (∀ name ∈ freeNamesOfProperties scope properties, known name)
      ↔ ∀ p ∈ properties, Closed known scope p.type := by
  induction properties with
  | nil => simp
  | cons p properties ih =>
    obtain ⟨name, type, isOptional⟩ := p
    simp only [freeNamesOfProperties, mem_append, or_imp, forall_and, ih,
      forall_mem_cons, Closed, Property.type]

@[simp] theorem closed_union (types : List TypeExpr) :
    Closed known scope (union types) ↔ ∀ type ∈ types, Closed known scope type := by
  rw [Closed, freeNames, closed_types]

@[simp] theorem closed_intersection (types : List TypeExpr) :
    Closed known scope (intersection types)
      ↔ ∀ type ∈ types, Closed known scope type := by
  rw [Closed, freeNames, closed_types]

@[simp] theorem closed_object (properties : List Property) :
    Closed known scope (object properties)
      ↔ ∀ p ∈ properties, Closed known scope p.type := by
  rw [Closed, freeNames, closed_properties]

@[simp] theorem closed_generic (name : String) (args : List TypeExpr) :
    Closed known scope (generic name args)
      ↔ (name ∈ scope ∨ known name) ∧ ∀ arg ∈ args, Closed known scope arg := by
  rw [← closed_ref, ← closed_types]
  simp only [Closed, freeNames, mem_append, or_imp, forall_and]

/-- The variables of the pattern are in scope in the first branch and
nowhere else. -/
@[simp] theorem closed_conditional (check pattern matched otherwise : TypeExpr) :
    Closed known scope (conditional check pattern matched otherwise)
      ↔ Closed known scope check ∧ Closed known scope pattern
        ∧ Closed known (pattern.inferred ++ scope) matched
          ∧ Closed known scope otherwise := by
  simp only [Closed, freeNames, mem_append, or_imp, forall_and, and_assoc]

end Constructors

end TypeExpr

end TypeScript

end TypedContent
