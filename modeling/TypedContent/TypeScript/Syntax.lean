/-!
# TypeScript syntax

The fragment of TypeScript that the generated modules are written in: type
expressions, the expressions and statements of method bodies, and the
declarations of a module. What a declaration says is decided when its value
is built; `TypeScript.Printer` only writes it down.

A `raw` node holds text that is copied as it is.
-/

namespace TypedContent

namespace TypeScript

/-! ## Types -/

/-- The predefined types. -/
inductive Primitive where
  | string
  | number
  | boolean
  | null
  | void
  | unknown
  | any
  | never
  | object
deriving DecidableEq, Repr

inductive Literal where
  | string (value : String)
  | int (value : Int)
  | bool (value : Bool)
  | null
deriving DecidableEq, Repr

mutual

/-- A type expression. -/
inductive TypeExpr where
  | primitive (kind : Primitive)
  | array (item : TypeExpr)
  | readonlyArray (item : TypeExpr)
  | union (members : List TypeExpr)
  | intersection (members : List TypeExpr)
  | object (properties : List Property)
  | record (key value : TypeExpr)
  | literal (value : Literal)
  | ref (name : String)
  | generic (name : String) (args : List TypeExpr)
  /-- `check extends pattern ? matched : otherwise` -/
  | conditional (check pattern matched otherwise : TypeExpr)
  /-- A variable bound by the pattern of a conditional. -/
  | infer (name : String)
  | keyof (item : TypeExpr)
  | raw (text : String)

/-- A property of an object type or an interface. -/
inductive Property where
  | mk (name : String) (type : TypeExpr) (isOptional : Bool)

end

namespace Property

def name : Property → String
  | mk name _ _ => name

def type : Property → TypeExpr
  | mk _ type _ => type

/-- Written with a question mark. -/
def isOptional : Property → Bool
  | mk _ _ isOptional => isOptional

def required (name : String) (type : TypeExpr) : Property :=
  mk name type false

def optional (name : String) (type : TypeExpr) : Property :=
  mk name type true

end Property

namespace TypeExpr

def string : TypeExpr := primitive .string
def number : TypeExpr := primitive .number
def boolean : TypeExpr := primitive .boolean
def null : TypeExpr := primitive .null
def unknown : TypeExpr := primitive .unknown
def any : TypeExpr := primitive .any

def text (value : String) : TypeExpr :=
  literal (.string value)

/-- `item | null` -/
def nullable (item : TypeExpr) : TypeExpr :=
  union [item, null]

def emptyObject : TypeExpr :=
  object []

/-- How many conditionals follow each other in the last branch. -/
def chainLength : TypeExpr → Nat
  | conditional _ _ _ otherwise => otherwise.chainLength + 1
  | _ => 0

mutual

/-- The names a type refers to, from left to right. -/
def names : TypeExpr → List String
  | primitive _ | literal _ | infer _ | raw _ => []
  | array item | readonlyArray item | keyof item => names item
  | union members | intersection members => namesOfTypes members
  | object properties => namesOfProperties properties
  | record key value => names key ++ names value
  | ref name => [name]
  | generic name args => name :: namesOfTypes args
  | conditional check pattern matched otherwise =>
    names check ++ names pattern ++ names matched ++ names otherwise

def namesOfTypes : List TypeExpr → List String
  | [] => []
  | type :: types => names type ++ namesOfTypes types

def namesOfProperties : List Property → List String
  | [] => []
  | .mk _ type _ :: properties => names type ++ namesOfProperties properties

end

end TypeExpr

/-- A type parameter: `const name extends constraint = default`. -/
structure TypeParameter where
  name : String
  constraint : Option TypeExpr := none
  default : Option TypeExpr := none
  /-- Arguments are inferred as literals. -/
  isConst : Bool := false

/-! ## Expressions and statements -/

mutual

inductive Expr where
  | identifier (name : String)
  | literal (value : Literal)
  | call (callee : Expr) (typeArgs : List TypeExpr) (args : List Expr)
  | object (fields : List Field)
  | member (target : Expr) (property : String)
  | template (pieces : List TemplatePiece)
  | await (operand : Expr)
  | new (callee : Expr) (args : List Expr)
  | raw (code : String)

/-- A field of an object literal. -/
inductive Field where
  | mk (name : String) (value : Expr)

/-- A piece of a template literal. -/
inductive TemplatePiece where
  | text (text : String)
  | value (expr : Expr)

end

namespace Expr

def text (value : String) : Expr :=
  literal (.string value)

/-- `this.property` -/
def this (property : String) : Expr :=
  member (identifier "this") property

/-- A call without type arguments. -/
def apply (callee : Expr) (args : List Expr) : Expr :=
  call callee [] args

mutual

/-- The names of the types given as type arguments, from left to right. -/
def names : Expr → List String
  | identifier _ | literal _ | raw _ => []
  | call callee typeArgs args =>
    names callee ++ TypeExpr.namesOfTypes typeArgs ++ namesOfExprs args
  | object fields => namesOfFields fields
  | member target _ => names target
  | template pieces => namesOfPieces pieces
  | await operand => names operand
  | new callee args => names callee ++ namesOfExprs args

def namesOfExprs : List Expr → List String
  | [] => []
  | expr :: exprs => names expr ++ namesOfExprs exprs

def namesOfFields : List Field → List String
  | [] => []
  | .mk _ value :: fields => names value ++ namesOfFields fields

def namesOfPieces : List TemplatePiece → List String
  | [] => []
  | .text _ :: pieces => namesOfPieces pieces
  | .value expr :: pieces => names expr ++ namesOfPieces pieces

end

end Expr

inductive Statement where
  | const (name : String) (init : Expr)
  | expr (value : Expr)
  | returning (value : Option Expr)
  | tryCatch (body : List Statement) (binding : String) (handler : List Statement)
  | raw (code : String)

namespace Statement

mutual

/-- The names of the types given as type arguments, from left to right. -/
def names : Statement → List String
  | const _ init => init.names
  | expr value => value.names
  | returning none => []
  | returning (some value) => value.names
  | tryCatch body _ handler => namesOfStatements body ++ namesOfStatements handler
  | raw _ => []

def namesOfStatements : List Statement → List String
  | [] => []
  | statement :: statements => names statement ++ namesOfStatements statements

end

end Statement

/-! ## Declarations -/

/-- A parameter of a function, method or constructor. -/
structure Parameter where
  name : String
  type : Option TypeExpr
  isOptional : Bool

namespace Parameter

def required (name : String) (type : TypeExpr) : Parameter :=
  ⟨name, some type, false⟩

def optional (name : String) (type : TypeExpr) : Parameter :=
  ⟨name, some type, true⟩

/-- The names in the annotations of a parameter list. -/
def names (parameters : List Parameter) : List String :=
  TypeExpr.namesOfTypes (parameters.filterMap Parameter.type)

end Parameter

structure Signature where
  typeParameters : List TypeParameter
  parameters : List Parameter
  returns : Option TypeExpr

def Signature.names (s : Signature) : List String :=
  TypeExpr.namesOfTypes (s.typeParameters.flatMap fun p =>
    p.constraint.toList ++ p.default.toList)
    ++ Parameter.names s.parameters ++ TypeExpr.namesOfTypes s.returns.toList

structure Method where
  name : String
  /-- The signatures callers see, in the order they are tried; without any,
  the implementation's is. -/
  overloads : List Signature
  implementation : Signature
  body : List Statement
  isAsync : Bool
  doc : Option String

inductive ClassMember where
  | property (name : String) (type : TypeExpr) (isReadonly : Bool)
  | constructor (parameters : List Parameter) (body : List Statement)
  | method (method : Method)

namespace ClassMember

def isProperty : ClassMember → Bool
  | property _ _ _ => true
  | _ => false

def method? : ClassMember → Option Method
  | method m => some m
  | _ => none

def names : ClassMember → List String
  | property _ type _ => type.names
  | constructor parameters body =>
    Parameter.names parameters ++ Statement.namesOfStatements body
  | method m =>
    m.overloads.flatMap Signature.names ++ m.implementation.names
      ++ Statement.namesOfStatements m.body

end ClassMember

/-- An exported class. -/
structure Class where
  name : String
  base : Option TypeExpr
  members : List ClassMember
  doc : Option String

namespace Class

def methods (c : Class) : List Method :=
  c.members.filterMap ClassMember.method?

/-- The names of the types a class refers to, in its base, its members and
their bodies. -/
def names (c : Class) : List String :=
  TypeExpr.namesOfTypes c.base.toList ++ c.members.flatMap ClassMember.names

end Class

/-- An exported function. -/
structure Function where
  name : String
  signature : Signature
  body : List Statement

def Function.names (f : Function) : List String :=
  f.signature.names ++ Statement.namesOfStatements f.body

/-- What every type declaration starts with. -/
structure Head where
  name : String
  typeParameters : List TypeParameter := []
  doc : Option String := none

/-- An exported type declaration. -/
inductive Declaration where
  | interface (head : Head) (bases : List TypeExpr) (properties : List Property)
  | typeAlias (head : Head) (type : TypeExpr)
  /-- A namespace. -/
  | scope (head : Head) (members : List Declaration)

namespace Declaration

def head : Declaration → Head
  | interface head _ _ | typeAlias head _ | scope head _ => head

def name (d : Declaration) : String :=
  d.head.name

/-- The properties of an interface. -/
def properties : Declaration → List Property
  | interface _ _ properties => properties
  | _ => []

/-- The type an alias stands for. -/
def aliased? : Declaration → Option TypeExpr
  | typeAlias _ type => some type
  | _ => none

end Declaration

/-! ## Modules -/

structure Import where
  items : List String
  source : String
  isTypeOnly : Bool

/-- A top-level item of a module. -/
inductive Item where
  | raw (code : String)
  | declaration (declaration : Declaration)
  | classDef (definition : Class)
  | functionDef (definition : Function)

namespace Item

def declaration? : Item → Option Declaration
  | declaration d => some d
  | _ => none

def class? : Item → Option Class
  | classDef c => some c
  | _ => none

/-- The names of the types a class or function refers to. -/
def names : Item → List String
  | raw _ | declaration _ => []
  | classDef c => c.names
  | functionDef f => f.names

end Item

structure Module where
  /-- The lines of the comment at the top. -/
  header : List String
  imports : List Import
  items : List Item

namespace Module

def declarations (m : Module) : List Declaration :=
  m.items.filterMap Item.declaration?

def classes (m : Module) : List Class :=
  m.items.filterMap Item.class?

def declaration? (m : Module) (name : String) : Option Declaration :=
  m.declarations.find? (·.name == name)

def class? (m : Module) (name : String) : Option Class :=
  m.classes.find? (·.name == name)

end Module

end TypeScript

end TypedContent
