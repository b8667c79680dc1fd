import DataBinding.Number.Nearest
import DataBinding.Number.Shortest

/-!
Written forms of numbers. All of them print the digits of the shortest decimal that reads back; a
`Layout` holds what they decide differently: names of the special values, the window in which the
decimal point is written in place, and the shape of the exponent outside of it.
-/
namespace DataBinding.Number

/-- The decisions of one written form. -/
structure Layout where
  /-- The name of a NaN. -/
  nan : String
  /-- The name of the infinities, after the sign. -/
  infinity : String
  /-- Whether zero keeps its sign. -/
  signedZero : Bool
  /-- The least magnitude that is written without an exponent. -/
  least : Nat
  /-- The first magnitude above it that is written with an exponent. -/
  bound : Nat
  /-- Whether an integer is written out exactly instead of with zeros after its shortest digits. -/
  exactIntegers : Bool
  /-- Whether an integer written in place ends in `.0`. -/
  pointZero : Bool
  /-- Whether an exponent that is not negative has a plus sign. -/
  exponentPlus : Bool
  /-- Which neighbour is taken at equal distance. -/
  tie : Tie

/-- The decimal digits of a natural. -/
def digitsOf (n : Nat) : List Char := Nat.toDigits 10 n

/-- The finite number as a natural, apart from its sign, if it has no fractional part. -/
def natural? (n : Number) : Option Nat :=
  let num := n.mantissa <<< n.exponent.toNat
  let den := 1 <<< (-n.exponent).toNat
  if num % den = 0 then some (num / den) else none

/-- The digits with the decimal point in place. -/
def Decimal.positional (pointZero : Bool) (d : Decimal) : List Char :=
  let digits := digitsOf d.digits
  let point : Int := digits.length + d.exponent
  if 0 ≤ d.exponent then
    digits ++ List.replicate d.exponent.toNat '0' ++ (if pointZero then ['.', '0'] else [])
  else if 0 < point then digits.take point.toNat ++ '.' :: digits.drop point.toNat
  else '0' :: '.' :: (List.replicate (-point).toNat '0' ++ digits)

/-- One digit before the point, the others after it, and the exponent. -/
def Decimal.scientific (plus : Bool) (d : Decimal) : List Char :=
  let digits := digitsOf d.digits
  let e : Int := digits.length + d.exponent - 1
  let fraction := if digits.length ≤ 1 then [] else '.' :: digits.drop 1
  let sign := if e < 0 then ['-'] else if plus then ['+'] else []
  digits.take 1 ++ fraction ++ 'e' :: (sign ++ digitsOf e.natAbs)

/-- The text of a number without its sign. -/
def Layout.unsigned (style : Layout) (n : Number) : List Char :=
  if n.isInfinite then style.infinity.toList
  else if n.isZero then if style.pointZero then ['0', '.', '0'] else ['0']
  else if style.least ≤ n.magnitude && n.magnitude < style.bound then
    match style.exactIntegers, n.natural? with
    | true, some i => digitsOf i
    | _, _ => (n.shortest style.tie).positional style.pointZero
  else (n.shortest style.tie).scientific style.exponentPlus

/-- The text of a number in a written form. -/
def Layout.write (style : Layout) (n : Number) : String :=
  if n.isNaN then style.nan
  else
    let signed := n.isNegative && (style.signedZero || !n.isZero)
    String.ofList ((if signed then ['-'] else []) ++ style.unsigned n)

/-- How a number is shown to a reader of the page: in place from `1e-6` up to `1e21`, integers
exactly, and zero without a sign. -/
def shown : Layout where
  nan := "NaN"
  infinity := "Infinity"
  signedZero := false
  least := (ofDecimal false 1 (-6)).magnitude
  bound := (ofDecimal false 1 21).magnitude
  exactIntegers := true
  pointZero := false
  exponentPlus := true
  tie := .up

/-- How a number is shown to a programmer: always with a fraction or an exponent, in place from
`1e-4` up to `1e16`. -/
def inspected : Layout where
  nan := "NaN"
  infinity := "inf"
  signedZero := true
  least := (ofDecimal false 1 (-4)).magnitude
  bound := (ofDecimal false 1 16).magnitude
  exactIntegers := false
  pointZero := true
  exponentPlus := false
  tie := .up

/-- How a message about a document quotes one of its numerals: always with a fraction or an
exponent, in place from `1e-5` up to `1e16`. -/
def quoted : Layout where
  nan := "NaN"
  infinity := "inf"
  signedZero := true
  least := (ofDecimal false 1 (-5)).magnitude
  bound := (ofDecimal false 1 16).magnitude
  exactIntegers := false
  pointZero := true
  exponentPlus := true
  tie := .even

end DataBinding.Number
