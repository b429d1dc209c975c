import TypedContent.Text.Basic
import TypedContent.TypeScript.Lexical
import TypedContent.TypeScript.Syntax

/-!
# Printing TypeScript

Every node has one printed form. Types carry just the parentheses their
operands need, and a type alias whose type is a chain of conditionals shows
one branch a line.
-/

namespace TypedContent

namespace TypeScript

def parenthesize (needed : Bool) (s : String) : String :=
  if needed then "(" ++ s ++ ")" else s

/-- A text between braces with a space inside each; braces alone when there
is nothing to show. -/
def braced (sep : String) (entries : List String) : String :=
  match entries with
  | [] => "\x7b\x7d"
  | _ => "\x7b " ++ Text.joinWith sep entries ++ " \x7d"

/-- Comma-separated entries between angle brackets. -/
def angled (entries : List String) : String :=
  "<" ++ Text.joinWith ", " entries ++ ">"

/-! ## Types -/

def Primitive.render : Primitive → String
  | .string => "string"
  | .number => "number"
  | .boolean => "boolean"
  | .null => "null"
  | .void => "void"
  | .unknown => "unknown"
  | .any => "any"
  | .never => "never"
  | .object => "object"

def Literal.render : Literal → String
  | .string value => quoted value
  | .int value => Text.decimal value
  | .bool true => "true"
  | .bool false => "false"
  | .null => "null"

namespace TypeExpr

def isConditional : TypeExpr → Bool
  | conditional _ _ _ _ => true
  | _ => false

/-- Whether a type needs parentheses as a member of an intersection. -/
def isLooserThanIntersection : TypeExpr → Bool
  | union _ | conditional _ _ _ _ => true
  | _ => false

/-- Whether a type needs parentheses in front of `[]` and behind `keyof`. -/
def isLooserThanPostfix : TypeExpr → Bool
  | union _ | intersection _ | conditional _ _ _ _ | infer _ | keyof _ => true
  | raw text => text.toList.any fun c => c == '|' || c == '&' || c == ' '
  | _ => false

mutual

def render : TypeExpr → String
  | primitive kind => kind.render
  | array item => parenthesize item.isLooserThanPostfix (render item) ++ "[]"
  | readonlyArray item =>
    "readonly " ++ parenthesize item.isLooserThanPostfix (render item) ++ "[]"
  | union members => Text.joinWith " | " (renderTypes isConditional members)
  | intersection members =>
    Text.joinWith " & " (renderTypes isLooserThanIntersection members)
  | object properties => braced "; " (renderProperties properties)
  | record key value => "Record" ++ angled [render key, render value]
  | literal value => value.render
  | ref name => name
  | generic name args => name ++ angled (renderTypes (fun _ => false) args)
  | conditional check pattern matched otherwise =>
    parenthesize check.isConditional (render check) ++ " extends "
      ++ parenthesize pattern.isConditional (render pattern) ++ " ? "
        ++ render matched ++ " : "
      ++ render otherwise
  | infer name => "infer " ++ name
  | keyof item => "keyof " ++ parenthesize item.isLooserThanPostfix (render item)
  | raw text => text

/-- The types of a list, each in parentheses if `wrap` says so. -/
def renderTypes (wrap : TypeExpr → Bool) : List TypeExpr → List String
  | [] => []
  | type :: types => parenthesize (wrap type) (render type) :: renderTypes wrap types

def renderProperties : List Property → List String
  | [] => []
  | .mk name type isOptional :: properties =>
    (TypeScript.key name ++ (if isOptional then "?" else "") ++ ": " ++ render type)
      :: renderProperties properties

end

/-- A chain of conditionals with each branch on a line of its own. -/
def renderChain : TypeExpr → String
  | conditional check pattern matched otherwise =>
    parenthesize check.isConditional check.render ++ " extends "
      ++ parenthesize pattern.isConditional pattern.render ++ "\n  ? "
        ++ matched.render ++ "\n  : "
      ++ otherwise.renderChain
  | type => type.render

end TypeExpr

def Property.render (p : Property) : String :=
  key p.name ++ (if p.isOptional then "?" else "") ++ ": " ++ p.type.render

def TypeParameter.render (p : TypeParameter) : String :=
  (if p.isConst then "const " else "") ++ p.name
    ++ (match p.constraint with
      | some type => " extends " ++ type.render
      | none => "")
    ++ (match p.default with
      | some type => " = " ++ type.render
      | none => "")

/-- Type parameters between angle brackets; nothing when there are none. -/
def renderTypeParameters : List TypeParameter → String
  | [] => ""
  | parameters => angled (parameters.map TypeParameter.render)

/-! ## Expressions and statements -/

/-- The text of a template literal's fixed piece: a back quote is
escaped. -/
def escapeTemplate (s : String) : String :=
  String.ofList (s.toList.flatMap fun c => if c = '\x60' then ['\\', '\x60'] else [c])

/-- A field of an object literal, given the text of its value. A variable of
the field's own name is not repeated. -/
def renderField (name : String) (value : Expr) (text : String) : String :=
  match value with
  | .identifier shown => if shown = name then name else key name ++ ": " ++ text
  | _ => key name ++ ": " ++ text

namespace Expr

mutual

def render : Expr → String
  | identifier name => name
  | literal value => value.render
  | call callee typeArgs args =>
    render callee
      ++ (match typeArgs with
        | [] => ""
        | _ => angled (typeArgs.map TypeExpr.render))
      ++ "(" ++ Text.joinWith ", " (renderExprs args) ++ ")"
  | object fields => braced ", " (renderFields fields)
  | member target property => render target ++ "." ++ property
  | template pieces => "\x60" ++ renderPieces pieces ++ "\x60"
  | await operand => "await " ++ render operand
  | new callee args =>
    "new " ++ render callee ++ "(" ++ Text.joinWith ", " (renderExprs args) ++ ")"
  | raw code => code

def renderExprs : List Expr → List String
  | [] => []
  | expr :: exprs => render expr :: renderExprs exprs

def renderFields : List Field → List String
  | [] => []
  | .mk name value :: fields =>
    renderField name value (render value) :: renderFields fields

def renderPieces : List TemplatePiece → String
  | [] => ""
  | .text text :: pieces => escapeTemplate text ++ renderPieces pieces
  | .value expr :: pieces => "$\x7b" ++ render expr ++ "\x7d" ++ renderPieces pieces

end

end Expr

namespace Statement

mutual

/-- A statement, indented by `level` steps. -/
def renderAt (level : Nat) : Statement → String
  | const name init =>
    Text.spaces level ++ "const " ++ name ++ " = " ++ init.render ++ ";\n"
  | expr value => Text.spaces level ++ value.render ++ ";\n"
  | returning none => Text.spaces level ++ "return;\n"
  | returning (some value) => Text.spaces level ++ "return " ++ value.render ++ ";\n"
  | tryCatch body binding handler =>
    Text.spaces level ++ "try \x7b\n" ++ renderBody (level + 1) body
      ++ Text.spaces level ++ "\x7d catch (" ++ binding ++ ") \x7b\n"
        ++ renderBody (level + 1) handler
      ++ Text.spaces level ++ "\x7d\n"
  | raw code => Text.indent level code

def renderBody (level : Nat) : List Statement → String
  | [] => ""
  | statement :: statements => renderAt level statement ++ renderBody level statements

end

/-- A statement as it stands in a body at the top. -/
def render (s : Statement) : String :=
  renderAt 1 s

end Statement

/-! ## Declarations -/

/-- A documentation comment on a line of its own; nothing without a text. -/
def renderDoc : Option String → String
  | some text => "/** " ++ text ++ " */\n"
  | none => ""

def Parameter.render (p : Parameter) : String :=
  p.name ++ (if p.isOptional then "?" else "")
    ++ (match p.type with
      | some type => ": " ++ type.render
      | none => "")

def renderParameters (parameters : List Parameter) : String :=
  "(" ++ Text.joinWith ", " (parameters.map Parameter.render) ++ ")"

def Signature.render (s : Signature) : String :=
  renderTypeParameters s.typeParameters ++ renderParameters s.parameters
    ++ (match s.returns with
      | some type => ": " ++ type.render
      | none => "")

def Method.render (m : Method) : String :=
  renderDoc m.doc
    ++ Text.concat (m.overloads.map fun s => m.name ++ s.render ++ ";\n")
    ++ (if m.isAsync then "async " else "") ++ m.name
      ++ m.implementation.render ++ " \x7b\n"
    ++ Statement.renderBody 1 m.body ++ "\x7d\n"

def ClassMember.render : ClassMember → String
  | .property name type isReadonly =>
    (if isReadonly then "readonly " else "") ++ key name ++ ": " ++ type.render ++ ";\n"
  | .constructor parameters body =>
    "constructor" ++ renderParameters parameters ++ " \x7b\n"
      ++ Statement.renderBody 1 body ++ "\x7d\n"
  | .method m => m.render

/-- The members that follow a member: a blank line stands before each of
them, save between two properties. -/
def renderMembersAfter (previous : ClassMember) : List ClassMember → String
  | [] => ""
  | m :: ms =>
    (if previous.isProperty && m.isProperty then "" else "\n")
      ++ Text.indent 1 m.render ++ renderMembersAfter m ms

def renderMembers : List ClassMember → String
  | [] => ""
  | m :: ms => Text.indent 1 m.render ++ renderMembersAfter m ms

def Class.render (c : Class) : String :=
  renderDoc c.doc ++ "export class " ++ c.name
    ++ (match c.base with
      | some type => " extends " ++ type.render
      | none => "")
    ++ " \x7b\n" ++ renderMembers c.members ++ "\x7d\n"

def Function.render (f : Function) : String :=
  "export function " ++ f.name ++ f.signature.render ++ " \x7b\n"
    ++ Statement.renderBody 1 f.body
    ++ "\x7d\n"

def renderInterfaceBody : List Property → String
  | [] => "\x7b\x7d\n"
  | properties =>
    "\x7b\n" ++ Text.concat (properties.map fun p =>
      "  " ++ p.render ++ ";\n") ++ "\x7d\n"

namespace Declaration

mutual

def render : Declaration → String
  | interface head bases properties =>
    renderDoc head.doc ++ "export interface " ++ head.name
      ++ renderTypeParameters head.typeParameters
      ++ (match bases with
        | [] => ""
        | _ => " extends " ++ Text.joinWith ", " (bases.map TypeExpr.render))
      ++ " " ++ renderInterfaceBody properties
  | typeAlias head type =>
    renderDoc head.doc ++ "export type " ++ head.name
      ++ renderTypeParameters head.typeParameters
      ++ " = " ++ type.renderChain ++ ";\n"
  | scope head members =>
    renderDoc head.doc ++ "export namespace " ++ head.name ++ " \x7b\n"
      ++ renderScope members ++ "\x7d\n"

def renderScope : List Declaration → String
  | [] => ""
  | member :: members => Text.indent 1 (render member) ++ renderScope members

end

end Declaration

/-! ## Modules -/

/-- An import: up to three names share its line, more stand one a line. -/
def Import.render (i : Import) : String :=
  let opening := "import " ++ (if i.isTypeOnly then "type " else "") ++ "\x7b"
  let closing := "\x7d from \"" ++ i.source ++ "\";\n"
  if i.items.length ≤ 3 then opening ++ " " ++ Text.joinWith ", " i.items
    ++ " " ++ closing
  else opening ++ "\n" ++ Text.concat
    (i.items.map fun name => "  " ++ name ++ ",\n") ++ closing

/-- A text without the blanks at its end, closed by one line feed. -/
def closeLine (s : String) : String :=
  String.ofList (Text.trimEnd s.toList) ++ "\n"

def Item.render : Item → String
  | .raw code => closeLine code
  | .declaration d => d.render
  | .classDef c => c.render
  | .functionDef f => f.render

def renderHeaderLine (line : String) : String :=
  if line = "" then "//\n" else "// " ++ line ++ "\n"

/-- Entries with an empty line behind them, unless there are none. -/
def renderGroup : List String → String
  | [] => ""
  | entries => Text.concat entries ++ "\n"

def Module.render (m : Module) : String :=
  closeLine
    (renderGroup (m.header.map renderHeaderLine)
      ++ renderGroup (m.imports.map Import.render)
      ++ Text.concat (m.items.map fun item => item.render ++ "\n"))

end TypeScript

end TypedContent
