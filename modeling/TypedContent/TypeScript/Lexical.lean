import TypedContent.Naming.Words

/-!
# Quotes, keys and identifiers

How texts become TypeScript tokens: the body of a double-quoted literal, a
property key that is quoted only when it has to be, and a method name made
from an action.
-/

namespace TypedContent

namespace TypeScript

/-! ## Double-quoted text -/

/-- The spelling of a character between double quotes. -/
def escapeChar (c : Char) : List Char :=
  if c = '\\' then ['\\', '\\'] else if c = '"' then ['\\', '"'] else [c]

def escape (s : String) : String :=
  String.ofList (s.toList.flatMap escapeChar)

/-- A double-quoted literal. -/
def quoted (s : String) : String :=
  "\"" ++ escape s ++ "\""

/-! ## Property keys -/

def isIdentifierStart (c : Char) : Bool :=
  c.isAlpha || c == '_' || c == '$'

def isIdentifierPart (c : Char) : Bool :=
  c.isAlphanum || c == '_' || c == '$'

/-- Whether a name is an identifier of ASCII letters, digits, low lines and
dollar signs. -/
def isIdentifier : List Char → Bool
  | [] => false
  | c :: cs => isIdentifierStart c && (c :: cs).all isIdentifierPart

/-- Whether a property key has to be quoted. -/
def needsQuotes (name : String) : Bool :=
  !isIdentifier name.toList

/-- A property key, quoted if it has to be. -/
def key (name : String) : String :=
  if needsQuotes name then quoted name else name

/-! ## Method names -/

/-- Words that are no method names. -/
def reservedWords : List String :=
  ["break", "case", "catch", "class", "const", "continue", "debugger", "default",
    "delete", "do", "else", "enum", "export", "extends", "false", "finally", "for",
    "function", "if", "import", "in", "instanceof", "new", "null", "return", "super",
    "switch", "this", "throw", "true", "try", "typeof", "var", "void", "while", "with",
    "yield", "let", "static", "implements", "interface", "package", "private",
    "protected", "public", "await", "async"]

/-- The characters that separate the words of an action. -/
def isActionSeparator (c : Char) : Bool :=
  c == '-' || c == '.' || c == ' ' || c == '_'

/-- The words of an action in camel case; the first word keeps its case. -/
def camelAction (cs : List Char) : List Char :=
  match Text.pieces isActionSeparator cs with
  | [] => []
  | first :: rest => first ++ (rest.map Naming.capitalize).flatten

/-- The method name of an action. A low line goes in front of a digit or a
reserved word. -/
def methodName (action : String) : String :=
  let cs := camelAction action.toList
  let name := String.ofList cs
  if cs = [] then "_empty"
  else if cs.head?.any Char.isDigit || reservedWords.contains name then "_" ++ name
  else name

end TypeScript

end TypedContent
