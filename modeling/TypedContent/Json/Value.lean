import TypedContent.Keyed

/-!
# JSON values

A value is what a JSON text means. Objects list their fields in some order;
`Value.canonical` puts the fields of every object, at every depth, in
increasing order of their names, so that values which differ in the order of
fields only have the same canonical form.
-/

namespace TypedContent

namespace Json

/-- The number `mantissa * 10 ^ exponent`. -/
structure Number where
  mantissa : Int
  exponent : Int
deriving DecidableEq, Repr

inductive Value where
  | null
  | bool (value : Bool)
  | number (value : Number)
  | string (value : String)
  | array (items : List Value)
  | object (fields : List (String × Value))
deriving Repr

namespace Value

def int (n : Int) : Value :=
  number ⟨n, 0⟩

/-- A string, or null when there is none. -/
def optional : Option String → Value
  | some s => string s
  | none => null

mutual

/-- The value with the fields of every object in order. -/
def canonical : Value → Value
  | null => null
  | bool b => bool b
  | number n => number n
  | string s => string s
  | array items => array (canonicalItems items)
  | object fields => object (sortByKey Prod.fst (canonicalFields fields))

def canonicalItems : List Value → List Value
  | [] => []
  | item :: items => canonical item :: canonicalItems items

def canonicalFields : List (String × Value) → List (String × Value)
  | [] => []
  | (name, value) :: fields => (name, canonical value) :: canonicalFields fields

end

end Value

end Json

end TypedContent
