import TypedContent.Proofs.TypeScript.Scoping

/-!
# Names with the binders around them

Which declaration a name leads to depends on where it stands. A `Reference`
is one occurrence of a name together with the binders that are in scope
there; it leads to the innermost of them that has the name, and past all of
them to a declaration of the module if none has it. `TypeExpr.references`
lists the references in a type from left to right.
-/

namespace TypedContent

namespace TypeScript

/-- An occurrence of a name, and the binders in scope there, the innermost
first. -/
structure Reference where
  name : String
  scope : List String
deriving DecidableEq, Repr

namespace TypeExpr

mutual

/-- The references in a type that stands in a scope. -/
def references (scope : List String) : TypeExpr → List Reference
  | primitive _ | literal _ | infer _ | raw _ => []
  | array item | readonlyArray item | keyof item => references scope item
  | union members | intersection members => referencesOfTypes scope members
  | object properties => referencesOfProperties scope properties
  | record key value => references scope key ++ references scope value
  | ref name => [⟨name, scope⟩]
  | generic name args => ⟨name, scope⟩ :: referencesOfTypes scope args
  | conditional check pattern matched otherwise =>
    references scope check ++ references scope pattern
      ++ references (pattern.inferred ++ scope) matched
      ++ references scope otherwise

def referencesOfTypes (scope : List String) : List TypeExpr → List Reference
  | [] => []
  | type :: types => references scope type ++ referencesOfTypes scope types

def referencesOfProperties (scope : List String) : List Property → List Reference
  | [] => []
  | .mk _ type _ :: properties =>
    references scope type ++ referencesOfProperties scope properties

end

section Constructors

attribute [local simp] references

variable (scope : List String)

@[simp] theorem referencesOfTypes_eq (types : List TypeExpr) :
    referencesOfTypes scope types = types.flatMap (references scope) := by
  induction types with
  | nil => rfl
  | cons type types ih => rw [referencesOfTypes, ih, List.flatMap_cons]

@[simp] theorem referencesOfProperties_eq (properties : List Property) :
    referencesOfProperties scope properties = properties.flatMap fun p =>
      p.type.references scope := by
  induction properties with
  | nil => rfl
  | cons p properties ih =>
    obtain ⟨name, type, isOptional⟩ := p
    rw [referencesOfProperties, ih, List.flatMap_cons, Property.type]

@[simp] theorem references_primitive (kind : Primitive) :
    (primitive kind).references scope = [] := by simp

@[simp] theorem references_literal (value : Literal) :
    (literal value).references scope = [] := by simp

@[simp] theorem references_infer (name : String) :
    (infer name).references scope = [] := by simp

@[simp] theorem references_ref (name : String) :
    (ref name).references scope = [⟨name, scope⟩] := by simp

@[simp] theorem references_array (item : TypeExpr) :
    (array item).references scope = item.references scope := by simp

@[simp] theorem references_readonlyArray (item : TypeExpr) :
    (readonlyArray item).references scope = item.references scope := by simp

@[simp] theorem references_keyof (item : TypeExpr) :
    (keyof item).references scope = item.references scope := by simp

@[simp] theorem references_union (members : List TypeExpr) :
    (union members).references scope = members.flatMap (references scope) := by simp

@[simp] theorem references_intersection (members : List TypeExpr) :
    (intersection members).references scope = members.flatMap (references scope) := by
      simp

@[simp] theorem references_object (properties : List Property) :
    (object properties).references scope = properties.flatMap fun p =>
      p.type.references scope := by simp

@[simp] theorem references_generic (name : String) (args : List TypeExpr) :
    (generic name args).references scope
      = ⟨name, scope⟩ :: args.flatMap (references scope) := by simp

/-- The variables of the pattern are around the first branch and nowhere
else. -/
@[simp] theorem references_conditional (check pattern matched otherwise : TypeExpr) :
    (conditional check pattern matched otherwise).references scope
      = check.references scope ++ pattern.references scope
        ++ matched.references (pattern.inferred ++ scope)
        ++ otherwise.references scope := by simp

end Constructors

end TypeExpr

end TypeScript

end TypedContent
