import TypedContent.Json.Numeral

/-!
# JSON documents

A document is the syntax tree of a JSON text, before strings and numbers are
given a meaning. The distinction matters where a reader only asks for some
fields: what it passes over need not denote a value, so a surrogate escape
without its partner or a number beyond every double is refused only where
the value is kept.
-/

namespace TypedContent

namespace Json

/-- A character of a string literal, or the code unit of a `\u` escape. -/
inductive StringUnit where
  | char (c : Char)
  | code (unit : Nat)
deriving DecidableEq, Repr

inductive Document where
  | null
  | bool (value : Bool)
  | number (numeral : Numeral)
  | string (units : List StringUnit)
  | array (items : List Document)
  | object (members : List (List StringUnit × Document))
deriving Repr

/-! ## Strings -/

def isHighSurrogate (n : Nat) : Bool :=
  0xD800 ≤ n && n < 0xDC00

def isLowSurrogate (n : Nat) : Bool :=
  0xDC00 ≤ n && n < 0xE000

/-- The text of a literal. Surrogates have to come in pairs, a high one and
then a low one. -/
def decodeUnits? : List StringUnit → Option (List Char)
  | [] => some []
  | .char c :: rest => (decodeUnits? rest).map (c :: ·)
  | .code high :: .code low :: rest =>
    if isHighSurrogate high then
      if isLowSurrogate low then
        (decodeUnits? rest).map
          (Char.ofNat (0x10000 + (high - 0xD800) * 0x400 + (low - 0xDC00)) :: ·)
      else none
    else if isLowSurrogate high then none
    else (decodeUnits? (.code low :: rest)).map (Char.ofNat high :: ·)
  | .code unit :: rest =>
    if isHighSurrogate unit || isLowSurrogate unit then none
    else (decodeUnits? rest).map (Char.ofNat unit :: ·)

def decodeString? (units : List StringUnit) : Option String :=
  (decodeUnits? units).map String.ofList

/-! ## Values -/

namespace Document

mutual

/-- The value of a document whose arrays and objects nest no deeper than
`depth`. -/
def value? (depth : Nat) : Document → Option Value
  | null => some .null
  | bool b => some (.bool b)
  | number n => if n.isDouble then some (.number n.number) else none
  | string units => (decodeString? units).map Value.string
  | array items =>
    match depth with
    | 0 => none
    | depth + 1 => (valueItems? depth items).map Value.array
  | object members =>
    match depth with
    | 0 => none
    | depth + 1 =>
      (valueMembers? depth members).map fun fields =>
        .object (Keyed.ofList fields).entries

def valueItems? (depth : Nat) : List Document → Option (List Value)
  | [] => some []
  | item :: items => do
    let first ← value? depth item
    let rest ← valueItems? depth items
    return first :: rest

def valueMembers? (depth : Nat) :
    List (List StringUnit × Document) → Option (List (String × Value))
  | [] => some []
  | (name, document) :: members => do
    let name ← decodeString? name
    let first ← value? depth document
    let rest ← valueMembers? depth members
    return (name, first) :: rest

end

/-! ## Records

A record has fields in a fixed order. It is written as an object, where a
field may go by several names and unknown names are passed over, or as an
array of the fields in their order. -/

/-- A string. -/
def text? : Document → Option String
  | string units => decodeString? units
  | _ => none

/-- A string, or null for none. -/
def optionalText? : Document → Option (Option String)
  | null => some none
  | document => document.text?.map some

/-- The documents of a record's fields, given the names that each field goes
by. A field that comes twice or an array that is too long makes no
record. -/
def fields? (names : List (List String)) : Document → Option (List (Option Document))
  | object members =>
    members.foldlM (fun (found : List (Option Document)) (units, document) => do
      let name ← decodeString? units
      match names.findIdx? (·.contains name) with
      | none => some found
      | some i =>
        match found[i]? with
        | some none => some (found.set i (some document))
        | _ => none) (names.map fun _ => none)
  | array items =>
    if items.length ≤ names.length then
      some (items.map some ++ List.replicate (names.length - items.length) none)
    else none
  | _ => none

/-- Read a part that may be missing. -/
def optional? {α : Type} (read : Document → Option α)
    (fallback : α) : Option Document → Option α
  | some document => read document
  | none => some fallback

/-- A map from strings, with each value read by `read`; the last entry of a
key counts. -/
def map? {α : Type} (read : Document → Option α) : Document → Option (Keyed α)
  | object members => do
    let entries ← members.mapM fun (units, document) => do
      return (← decodeString? units, ← read document)
    return Keyed.ofList entries
  | _ => none

/-- A list with each item read by `read`. -/
def list? {α : Type} (read : Document → Option α) : Document → Option (List α)
  | array items => items.mapM read
  | _ => none

end Document

end Json

end TypedContent
