import TypedContent.Json.Document
import TypedContent.Text.Basic

/-!
# Reading JSON texts

Strict JSON: the blanks are the space, the tab, the line feed and the
return; there are no comments and no trailing commas; a string holds no
control character; a number has no leading zero. Arrays and objects may nest
to any depth here, since a document that is only passed over has no limit.
-/

namespace TypedContent

namespace Json

def isSpace (c : Char) : Bool :=
  c == ' ' || c == '\t' || c == '\n' || c == '\r'

def skipSpace (cs : List Char) : List Char :=
  cs.dropWhile isSpace

/-! ## Tokens -/

/-- The character of a one-letter escape. -/
def shortEscape? : Char → Option Char
  | '"' => some '"'
  | '\\' => some '\\'
  | '/' => some '/'
  | 'b' => some '\x08'
  | 'f' => some '\x0c'
  | 'n' => some '\n'
  | 'r' => some '\r'
  | 't' => some '\t'
  | _ => none

/-- The rest of a string literal whose opening quote has been read, and what
follows its closing quote. -/
def readString? : List Char → Option (List StringUnit × List Char)
  | [] => none
  | '"' :: cs => some ([], cs)
  | '\\' :: 'u' :: a :: b :: c :: d :: cs => do
    let unit ← Text.hexNumber? [a, b, c, d]
    let (units, rest) ← readString? cs
    return (.code unit :: units, rest)
  | '\\' :: c :: cs => do
    let escaped ← shortEscape? c
    let (units, rest) ← readString? cs
    return (.char escaped :: units, rest)
  | c :: cs =>
    if c.toNat < 0x20 || c == '\\' then none
    else do
      let (units, rest) ← readString? cs
      return (.char c :: units, rest)

/-- Digits at the start of a text. -/
def spanDigits (cs : List Char) : List Nat × List Char :=
  ((cs.takeWhile Char.isDigit).map (·.toNat - 48), cs.dropWhile Char.isDigit)

/-- The digits after the point, if there is one. -/
def readFraction? : List Char → Option (List Nat × List Char)
  | '.' :: cs =>
    let (digits, rest) := spanDigits cs
    if digits = [] then none else some (digits, rest)
  | cs => some ([], cs)

def readSign : List Char → Bool × List Char
  | '-' :: cs => (true, cs)
  | '+' :: cs => (false, cs)
  | cs => (false, cs)

/-- The exponent, if there is one. -/
def readExponent? : List Char → Option (Int × List Char)
  | [] => some (0, [])
  | c :: cs =>
    if c == 'e' || c == 'E' then
      let (isNegative, cs) := readSign cs
      let (digits, rest) := spanDigits cs
      let size : Int := digitsValue digits
      if digits = [] then none else some (if isNegative then -size else size, rest)
    else some (0, c :: cs)

/-- The digits before the point: a zero alone, or digits that start with
another one. -/
def readWhole? : List Char → Option (List Nat × List Char)
  | '0' :: cs => if cs.head?.any Char.isDigit then none else some ([0], cs)
  | cs =>
    let (digits, rest) := spanDigits cs
    if digits = [] then none else some (digits, rest)

def readNumeral? (cs : List Char) : Option (Numeral × List Char) := do
  let (isNegative, cs) :=
    match cs with
    | '-' :: cs => (true, cs)
    | _ => (false, cs)
  let (whole, cs) ← readWhole? cs
  let (fraction, cs) ← readFraction? cs
  let (exponent, cs) ← readExponent? cs
  return ({ isNegative, whole, fraction, exponent }, cs)

/-! ## Documents -/

/-- The documents that are one fixed word. -/
def readWord? (cs : List Char) : Option (Document × List Char) :=
  [("null", Document.null), ("true", .bool true), ("false", .bool false)].findSome?
    fun (word, document) =>
    (word.toList.isPrefixOf? cs).map fun rest => (document, rest)

mutual

/-- One document at the start of a text. `fuel` bounds the number of nested
calls; each of them reads a character of its own, save the first item of an
array and the first member of an object. -/
def readDocument? : Nat → List Char → Option (Document × List Char)
  | 0, _ => none
  | fuel + 1, cs =>
    match skipSpace cs with
    | '"' :: cs => do
      let (units, rest) ← readString? cs
      return (.string units, rest)
    | '[' :: cs =>
      match skipSpace cs with
      | ']' :: rest => some (.array [], rest)
      | cs => do
        let (items, rest) ← readItems? fuel cs
        return (.array items, rest)
    | '{' :: cs =>
      match skipSpace cs with
      | '}' :: rest => some (.object [], rest)
      | cs => do
        let (members, rest) ← readMembers? fuel cs
        return (.object members, rest)
    | cs =>
      match readWord? cs with
      | some word => some word
      | none => (readNumeral? cs).map fun (n, rest) => (.number n, rest)

/-- The items of an array up to and with its closing bracket. -/
def readItems? : Nat → List Char → Option (List Document × List Char)
  | 0, _ => none
  | fuel + 1, cs => do
    let (item, cs) ← readDocument? fuel cs
    match skipSpace cs with
    | ',' :: cs =>
      let (items, rest) ← readItems? fuel cs
      return (item :: items, rest)
    | ']' :: rest => return ([item], rest)
    | _ => none

/-- The members of an object up to and with its closing brace. -/
def readMembers? :
    Nat → List Char → Option (List (List StringUnit × Document) × List Char)
  | 0, _ => none
  | fuel + 1, cs => do
    let '"' :: cs := skipSpace cs | none
    let (name, cs) ← readString? cs
    let ':' :: cs := skipSpace cs | none
    let (document, cs) ← readDocument? fuel cs
    match skipSpace cs with
    | ',' :: cs =>
      let (members, rest) ← readMembers? fuel cs
      return ((name, document) :: members, rest)
    | '}' :: rest => return ([(name, document)], rest)
    | _ => none

end

/-- The document of a JSON text. -/
def parse? (source : String) : Option Document := do
  let cs := source.toList
  let (document, rest) ← readDocument? (2 * cs.length + 2) cs
  if skipSpace rest = [] then return document else none

end Json

end TypedContent
