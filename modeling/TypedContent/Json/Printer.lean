import TypedContent.Json.Value
import TypedContent.Text.Basic

/-!
# JSON texts of values

The compact form has no blanks; the indented form puts every field on a line
of its own. In strings only the double quote, the backslash and the control
characters below the space are escaped.
-/

namespace TypedContent

namespace Json

/-- The spelling of a character in a string. -/
def escapeChar (c : Char) : List Char :=
  match c with
  | '"' => ['\\', '"']
  | '\\' => ['\\', '\\']
  | '\x08' => ['\\', 'b']
  | '\x0c' => ['\\', 'f']
  | '\n' => ['\\', 'n']
  | '\r' => ['\\', 'r']
  | '\t' => ['\\', 't']
  | c =>
    if c.toNat < 0x20 then
      ['\\', 'u', '0', '0', Nat.digitChar (c.toNat / 16), Nat.digitChar (c.toNat % 16)]
    else [c]

def renderString (s : String) : String :=
  "\"" ++ String.ofList (s.toList.flatMap escapeChar) ++ "\""

def Number.render (n : Number) : String :=
  Text.decimal n.mantissa ++ (if n.exponent = 0 then ""
    else "e" ++ Text.decimal n.exponent)

namespace Value

mutual

/-- The compact text of a value. -/
def render : Value → String
  | null => "null"
  | bool true => "true"
  | bool false => "false"
  | number n => n.render
  | string s => renderString s
  | array items => "[" ++ Text.joinWith "," (renderItems items) ++ "]"
  | object fields => "\x7b" ++ Text.joinWith "," (renderFields fields) ++ "\x7d"

def renderItems : List Value → List String
  | [] => []
  | item :: items => render item :: renderItems items

def renderFields : List (String × Value) → List String
  | [] => []
  | (name, value) :: fields =>
    (renderString name ++ ":" ++ render value) :: renderFields fields

end

/-- An object of strings with one field a line, indented by two spaces. -/
def renderStringObject (fields : List (String × String)) : String :=
  "\x7b\n"
    ++ Text.joinWith ",\n" (fields.map fun (name, value) =>
      "  " ++ renderString name ++ ": " ++ renderString value)
    ++ "\n\x7d"

end Value

end Json

end TypedContent
