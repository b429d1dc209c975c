import TypedContent.Text.Basic

/-!
# Reading TOML documents

A document is read into the entries of its top-level table. Only entries
with one plain value are accepted: tables, dotted keys, numbers, dates and
nested arrays have no reading, which refuses the whole document, as does a
key that comes twice.

Lines end with a line feed, alone or after a return. Comments and strings
hold no control characters except the tab, and multi-line strings line
breaks.
-/

namespace TypedContent

namespace Toml

/-- A plain value. A document can hold more, such as numbers, dates and
tables, but no setting can. -/
inductive Value where
  | string (value : String)
  | bool (value : Bool)
  | strings (values : List String)
deriving DecidableEq, Repr

/-! ## Blanks, line breaks and comments -/

def isSpace (c : Char) : Bool :=
  c == ' ' || c == '\t'

def skipSpace (cs : List Char) : List Char :=
  cs.dropWhile isSpace

/-- A character that may stand in a comment or a string: the tab or no
control character. -/
def isPrintable (c : Char) : Bool :=
  c == '\t' || (0x20 ≤ c.toNat && c.toNat != 0x7F)

/-- The text after the line break that it starts with. -/
def lineBreak? : List Char → Option (List Char)
  | '\n' :: cs => some cs
  | '\r' :: '\n' :: cs => some cs
  | _ => none

/-- The text after the rest of a line that holds nothing but blanks and a
comment. -/
def endLine? (cs : List Char) : Option (List Char) :=
  let cs :=
    match skipSpace cs with
    | '#' :: comment => comment.dropWhile isPrintable
    | cs => cs
  match cs with
  | [] => some []
  | cs => lineBreak? cs

/-- Drop blanks, line breaks and comments, which may stand between the items
of an array. -/
def skipFiller (inComment : Bool) : List Char → List Char
  | [] => []
  | '\n' :: cs => skipFiller false cs
  | '\r' :: '\n' :: cs => skipFiller false cs
  | c :: cs =>
    if inComment then if isPrintable c then skipFiller true cs else c :: cs
    else if c == '#' then skipFiller true cs
    else if isSpace c then skipFiller false cs
    else c :: cs

/-! ## Strings -/

/-- The character of a one-letter escape. -/
def shortEscape? : Char → Option Char
  | 'b' => some '\x08'
  | 't' => some '\t'
  | 'n' => some '\n'
  | 'f' => some '\x0c'
  | 'r' => some '\r'
  | '"' => some '"'
  | '\\' => some '\\'
  | _ => none

/-- The character with the given hexadecimal number, which has to be a
scalar value. -/
def scalar? (digits : List Char) : Option Char := do
  let n ← Text.hexNumber? digits
  if n < 0xD800 || (0xE000 ≤ n && n < 0x110000) then some (Char.ofNat n) else none

/-- Put a character in front of a string that has been read. -/
def consChar (c : Char) : List Char × List Char → List Char × List Char
  | (body, rest) => (c :: body, rest)

/-- The rest of a basic string and what follows its closing quote. -/
def readBasic? : List Char → Option (List Char × List Char)
  | [] => none
  | '"' :: cs => some ([], cs)
  | '\\' :: 'u' :: a :: b :: c :: d :: cs => do
    let char ← scalar? [a, b, c, d]
    return consChar char (← readBasic? cs)
  | '\\' :: 'U' :: a :: b :: c :: d :: e :: f :: g :: h :: cs => do
    let char ← scalar? [a, b, c, d, e, f, g, h]
    return consChar char (← readBasic? cs)
  | '\\' :: c :: cs => do
    let char ← shortEscape? c
    return consChar char (← readBasic? cs)
  | c :: cs =>
    if isPrintable c && c != '\\' then (readBasic? cs).map (consChar c) else none

/-- The rest of a literal string and what follows its closing quote. -/
def readLiteral? : List Char → Option (List Char × List Char)
  | [] => none
  | '\'' :: cs => some ([], cs)
  | c :: cs => if isPrintable c then (readLiteral? cs).map (consChar c) else none

/-- The rest of a multi-line basic string and what follows its closing
quotes. Up to two quotes may stand in front of the closing three. A
backslash at the end of a line drops the blanks and line breaks that follow,
which `trimming` tells. -/
def readMultiBasic? (trimming : Bool) : List Char → Option (List Char × List Char)
  | [] => none
  | '"' :: '"' :: '"' :: '"' :: '"' :: cs => some (['"', '"'], cs)
  | '"' :: '"' :: '"' :: '"' :: cs => some (['"'], cs)
  | '"' :: '"' :: '"' :: cs => some ([], cs)
  | '\n' :: cs =>
    if trimming then readMultiBasic? true cs
      else (readMultiBasic? false cs).map (consChar '\n')
  | '\r' :: '\n' :: cs =>
    if trimming then readMultiBasic? true cs
      else (readMultiBasic? false cs).map (consChar '\n')
  | '\\' :: 'u' :: a :: b :: c :: d :: cs => do
    let char ← scalar? [a, b, c, d]
    return consChar char (← readMultiBasic? false cs)
  | '\\' :: 'U' :: a :: b :: c :: d :: e :: f :: g :: h :: cs => do
    let char ← scalar? [a, b, c, d, e, f, g, h]
    return consChar char (← readMultiBasic? false cs)
  | '\\' :: c :: cs =>
    match shortEscape? c with
    | some char => (readMultiBasic? false cs).map (consChar char)
    | none =>
      if (lineBreak? (skipSpace (c :: cs))).isSome then
        readMultiBasic? true (c :: cs) else none
  | c :: cs =>
    if trimming && isSpace c then readMultiBasic? true cs
    else if isPrintable c && c != '\\' then (readMultiBasic? false cs).map (consChar c)
    else none

/-- The rest of a multi-line literal string and what follows its closing
quotes. -/
def readMultiLiteral? : List Char → Option (List Char × List Char)
  | [] => none
  | '\'' :: '\'' :: '\'' :: '\'' :: '\'' :: cs => some (['\'', '\''], cs)
  | '\'' :: '\'' :: '\'' :: '\'' :: cs => some (['\''], cs)
  | '\'' :: '\'' :: '\'' :: cs => some ([], cs)
  | '\n' :: cs => (readMultiLiteral? cs).map (consChar '\n')
  | '\r' :: '\n' :: cs => (readMultiLiteral? cs).map (consChar '\n')
  | c :: cs => if isPrintable c then (readMultiLiteral? cs).map (consChar c) else none

/-- Drop the line break right after the opening quotes of a multi-line
string. -/
def dropFirstBreak (cs : List Char) : List Char :=
  (lineBreak? cs).getD cs

/-- A string in any of the four forms. -/
def readString? : List Char → Option (List Char × List Char)
  | '"' :: '"' :: '"' :: cs => readMultiBasic? false (dropFirstBreak cs)
  | '"' :: cs => readBasic? cs
  | '\'' :: '\'' :: '\'' :: cs => readMultiLiteral? (dropFirstBreak cs)
  | '\'' :: cs => readLiteral? cs
  | _ => none

/-! ## Values and entries -/

/-- The strings of an array up to and with its closing bracket. `fuel`
bounds their number. -/
def readStrings? : Nat → List Char → Option (List String × List Char)
  | 0, _ => none
  | fuel + 1, cs =>
    match skipFiller false cs with
    | ']' :: rest => some ([], rest)
    | cs => do
      let (first, cs) ← readString? cs
      match skipFiller false cs with
      | ',' :: cs =>
        let (strings, rest) ← readStrings? fuel cs
        return (String.ofList first :: strings, rest)
      | ']' :: rest => return ([String.ofList first], rest)
      | _ => none

def readValue? (cs : List Char) : Option (Value × List Char) :=
  match cs with
  | '[' :: cs =>
    (readStrings? (cs.length + 1) cs).map fun (values, rest) => (.strings values, rest)
  | cs =>
    match "true".toList.isPrefixOf? cs, "false".toList.isPrefixOf? cs with
    | some rest, _ => some (.bool true, rest)
    | none, some rest => some (.bool false, rest)
    | none, none =>
      (readString? cs).map fun (s, rest) => (.string (String.ofList s), rest)

def isBareKey (c : Char) : Bool :=
  c.isAlphanum || c == '_' || c == '-'

/-- A key, bare or quoted on one line. -/
def readKey? : List Char → Option (List Char × List Char)
  | '"' :: cs => readBasic? cs
  | '\'' :: cs => readLiteral? cs
  | cs =>
    let (key, rest) := cs.span isBareKey
    if key = [] then none else some (key, rest)

/-- A key, an equals sign and a value at the start of a text. -/
def readEntry? (cs : List Char) : Option ((String × Value) × List Char) := do
  let (key, cs) ← readKey? cs
  let '=' :: cs := skipSpace cs | none
  let (value, rest) ← readValue? (skipSpace cs)
  return ((String.ofList key, value), rest)

/-- The entries of a document, a line each. `fuel` bounds the number of
lines. -/
def readEntries? : Nat → List Char → Option (List (String × Value))
  | 0, _ => none
  | fuel + 1, cs =>
    match skipSpace cs with
    | [] => some []
    | cs =>
      match endLine? cs with
      | some rest => readEntries? fuel rest
      | none => do
        let (entry, cs) ← readEntry? cs
        let entries ← readEntries? fuel (← endLine? cs)
        return entry :: entries

/-- The entries of a TOML document. A byte order mark may stand in front of
it. -/
def parse? (source : String) : Option (List (String × Value)) := do
  let cs := source.toList
  let cs :=
    match cs with
    | '\ufeff' :: rest => rest
    | _ => cs
  let entries ← readEntries? (cs.length + 1) cs
  if (entries.map Prod.fst).Nodup then return entries else none

end Toml

end TypedContent
