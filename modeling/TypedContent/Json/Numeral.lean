import TypedContent.Json.Value

/-!
# Numerals

A numeral is a number as it is written. A number that is kept has to be in
the range of the doubles, and what counts is the double that the numeral is
read as, which takes two roundings. The digits are read as long as they fit
into 64 bits and rounded to a double; then the product with the double next
to a power of ten is rounded. So at the very end of the range the way in
which a number is written can decide.
-/

namespace TypedContent

namespace Json

/-- The digits before the point and behind it, and the exponent. -/
structure Numeral where
  isNegative : Bool := false
  whole : List Nat
  fraction : List Nat := []
  exponent : Int := 0
deriving DecidableEq, Repr

def digitsValue (digits : List Nat) : Nat :=
  digits.foldl (fun m d => 10 * m + d) 0

/-- The number that a numeral stands for. -/
def Numeral.number (n : Numeral) : Number :=
  let size : Int := digitsValue (n.whole ++ n.fraction)
  ⟨if n.isNegative then -size else size, n.exponent - n.fraction.length⟩

/-! ## Digits of 64 bits -/

/-- Read digits behind `m` as long as the number fits into 64 bits, and give
back the ones that are left. -/
def readDigits (m : Nat) : List Nat → Nat × List Nat
  | [] => (m, [])
  | d :: ds =>
    if 10 * m + d < Nat.pow 2 64 then readDigits (10 * m + d) ds else (m, d :: ds)

/-- The number of 64 bits that is read, and the power of ten that belongs to
it. A digit before the point that is left still counts as a place. Behind
the point, where digits may fit again, those that are left count for
nothing. -/
def Numeral.scaled (n : Numeral) : Nat × Int :=
  let (whole, places) := readDigits 0 n.whole
  let (significand, left) := readDigits whole n.fraction
  (significand, n.exponent + places.length + left.length - n.fraction.length)

/-! ## Rounding to doubles -/

/-- The nearest number that has 53 binary digits and then only zeros; of
two, the one with an even last digit. -/
def roundToDouble (n : Nat) : Nat :=
  let unit := Nat.pow 2 (n.log2 - 52)
  let units := n / unit
  let rest := n % unit
  if 2 * rest < unit ∨ (2 * rest = unit ∧ units % 2 = 0) then units * unit
    else (units + 1) * unit

/-- Whether a numeral is read as a finite double. -/
def Numeral.isDouble (n : Numeral) : Bool :=
  let (significand, exponent) := n.scaled
  significand == 0
    || (exponent ≤ 308
      && roundToDouble (roundToDouble significand * roundToDouble
        (Nat.pow 10 exponent.toNat)) < Nat.pow 2 1024)

end Json

end TypedContent
