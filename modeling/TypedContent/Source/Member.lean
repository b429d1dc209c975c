import TypedContent.Source.Mark
import TypedContent.Source.Parts
import TypedContent.Text.Basic

/-!
# Members, string lists and type arguments

The forms that declaration text is made of, once the brackets around them
are gone: the `name: value` members of an object, lists of string literals,
and a name with type arguments.
-/

namespace TypedContent

namespace Source

/-! ## Quotes -/

/-- The trimmed text without the pair of equal quotes around it, if there is
one. -/
def unquote (cs : List Char) : List Char :=
  match Text.trim cs with
  | [] => []
  | q :: rest => if isQuote q && rest.getLast? == some q then rest.dropLast else q :: rest

/-- Whether a trimmed text starts and ends with the same quote. -/
def isQuoted (cs : List Char) : Bool :=
  match Text.trim cs with
  | [] => false
  | q :: rest => isQuote q && rest.getLast? == some q

/-! ## Members -/

/-- A member of an object literal or an object type. -/
structure Member where
  /-- The key without its quotes. -/
  name : List Char
  /-- Written with a question mark. -/
  isOptional : Bool
  value : List Char
deriving DecidableEq, Repr

/-- A single or double quote, which may stand around a key. -/
def isKeyQuote (c : Char) : Bool :=
  c == '\'' || c == '"'

def startsKeyQuote (cs : List Char) : Bool :=
  cs.head?.any isKeyQuote

/-- The key as it is written and the text from its end on: a quoted key ends
with its literal, any other right before the first colon. -/
def splitKey? : List Char → Option (List Char × List Char)
  | [] => none
  | c :: cs =>
    if isKeyQuote c then
      let (body, rest) := literalRest c cs
      some (c :: body, rest)
    else
      (Text.cutAt? [':'] (c :: cs)).map fun (key, rest) => (key, ':' :: rest)

/-- The key without its question mark, whether it had one, and what follows
both. -/
def splitOptional (key rest : List Char) : List Char × Bool × List Char :=
  match rest with
  | '?' :: after => (key, true, Text.trimStart after)
  | _ =>
    match ['?'].isSuffixOf? key with
    | some name => (Text.trim name, true, rest)
    | none => (key, false, rest)

/-- A key written without quotes names a member unless it is empty or holds
one of these characters, which methods, index signatures and spreads
have. -/
def isPlainKey (name : List Char) : Bool :=
  name ≠ [] && name.all fun c => c != '(' && c != '[' && c != ' ' && c != '.'

/-- Read one entry of an object body. Entries that are not `name: value`
pairs have no reading. -/
def member? (entry : List Char) : Option Member := do
  let entry := dropGap entry
  let entry := Text.trimStart (("readonly ".toList.isPrefixOf? entry).getD entry)
  let (key, rest) ← splitKey? entry
  let key := Text.trim key
  let (name, isOptional, rest) := splitOptional key (Text.trimStart rest)
  let value := Text.trim (← [':'].isPrefixOf? rest)
  let name := unquote name
  if (startsKeyQuote key || isPlainKey name) && value ≠ [] then
    return { name, isOptional, value }
  else
    none

/-- The members of an object body, separated by commas or semicolons. -/
def members (body : List Char) : List Member :=
  (parts [',', ';'] body).filterMap member?

/-- The value of the first member named `key`. -/
def memberValue? (body key : List Char) : Option (List Char) :=
  ((members body).find? (·.name == key)).map Member.value

/-! ## String lists and type arguments -/

/-- The text without the square brackets around it, if it has both. -/
def dropListBrackets (cs : List Char) : List Char :=
  (do [']'].isSuffixOf? (← ['['].isPrefixOf? cs)).getD cs

/-- The strings of a list of literals, written in square brackets with
commas or as a union. -/
def stringList (cs : List Char) : List (List Char) :=
  ((parts [',', '|'] (dropListBrackets (Text.trim cs))).map unquote).filter (· ≠ [])

/-- A name and its type arguments. A name alone has none; arguments that are
not closed have no reading. -/
def genericParts? (cs : List Char) : Option (List Char × List (List Char)) :=
  let cs := Text.trim cs
  match Text.cutAt? ['<'] cs with
  | none => some (cs, [])
  | some (name, rest) =>
    (['>'].isSuffixOf? rest).map fun args => (Text.trim name, parts [','] args)

end Source

end TypedContent
