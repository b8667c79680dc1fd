import DataBinding.Number

/-!
Rounding to the nearest number. A positive quotient of naturals is scaled by a power of two until
its integer part has fifty-three bits, or as many as a subnormal number has left, and is then rounded
half to even. Products, quotients and decimal numerals all go through this one rounding.
-/
namespace DataBinding.Number

/-- The quotient rounded to the nearest natural, a half to the even neighbour. -/
def divideHalfEven (num den : Nat) : Nat :=
  let quotient := num / den
  let rest := num % den
  if 2 * rest < den then quotient
  else if den < 2 * rest then quotient + 1
  else quotient + quotient % 2

/-- The numerator of `num / den / 2 ^ e`. -/
def scaledNumerator (num : Nat) (e : Int) : Nat := num <<< (-e).toNat

/-- The denominator of `num / den / 2 ^ e`. -/
def scaledDenominator (den : Nat) (e : Int) : Nat := den <<< e.toNat

/-- The exponent that leaves fifty-three bits before the binary point of `num / den`, or the least
exponent there is. The bit lengths give it up to one. -/
def unitExponent (num den : Nat) : Int :=
  let guess : Int := (num.log2 : Int) - den.log2 - 52
  let exact :=
    if scaledNumerator num guess < (scaledDenominator den guess) <<< 52 then guess - 1 else guess
  max exact (-1074)

/-- The magnitude nearest to `num / den`; beyond the largest finite number it is infinite. The sum
carries into the exponent by itself when rounding reaches the next power of two. -/
def nearestMagnitude (num den : Nat) : Nat :=
  if num = 0 then 0
  else
    let e := unitExponent num den
    let units := divideHalfEven (scaledNumerator num e) (scaledDenominator den e)
    min infinite (((e + 1074).toNat <<< 52) + units)

/-- The number nearest to `± num / den`. -/
def nearest (negative : Bool) (num den : Nat) : Number :=
  ofMagnitude negative (nearestMagnitude num den)

/-- The number nearest to an integer. -/
def ofInt (i : Int) : Number := nearest (i < 0) i.natAbs 1

/-- The number nearest to `± digits * 10 ^ exponent`. -/
def ofDecimal (negative : Bool) (digits : Nat) (exponent : Int) : Number :=
  nearest negative (digits * Nat.pow 10 exponent.toNat) (Nat.pow 10 (-exponent).toNat)

/-- The product of two finite numbers, rounded. -/
def mul (a b : Number) : Number :=
  let e := a.exponent + b.exponent
  nearest (a.isNegative != b.isNegative)
    (scaledNumerator (a.mantissa * b.mantissa) (-e)) (scaledDenominator 1 (-e))

/-- The quotient of a finite number by a finite number other than zero, rounded. -/
def div (a b : Number) : Number :=
  let e := a.exponent - b.exponent
  nearest (a.isNegative != b.isNegative)
    (scaledNumerator a.mantissa (-e)) (scaledDenominator b.mantissa (-e))

/-- The number nearest to a power of ten. -/
def powerOfTen (k : Nat) : Number := nearest false (Nat.pow 10 k) 1

end DataBinding.Number
