import DataBinding.Number

/-!
The shortest decimal that reads back. Around a finite number lies the interval of reals that round
to it; its ends belong to it when the mantissa is even. Among the decimals of that interval those
with the fewest digits are wanted, and of them the one nearest to the number. If any decimal of a
given length lies in the interval, then so does one of the number's two neighbours on that grid,
therefore only these two are tried.
-/
namespace DataBinding.Number

/-- The positive decimal `digits * 10 ^ exponent`. -/
structure Decimal where
  digits : Nat
  exponent : Int
  deriving DecidableEq, Inhabited

/-- Which of two neighbours at equal distance is taken. -/
inductive Tie where
  | up
  | even
  deriving DecidableEq

/-- A number scaled by four, with the ends of its interval, in units of `num / den`. -/
structure Interval where
  lower : Nat
  value : Nat
  upper : Nat
  num : Nat
  den : Nat
  closed : Bool

/-- The reals that round to a finite number. Below a power of two the numbers lie twice as dense,
so there the lower end is half as far. -/
def interval (n : Number) : Interval :=
  let m := n.mantissa
  let e := n.exponent - 2
  let lower := if m = 1 <<< 52 ∧ 1 < n.exponentField then 4 * m - 1 else 4 * m - 2
  ⟨lower, 4 * m, 4 * m + 2, 1 <<< e.toNat, 1 <<< (-e).toNat, m % 2 == 0⟩

/-- Whether `digits * 10 ^ exponent` rounds to the number. -/
def Interval.contains (i : Interval) (d : Decimal) : Bool :=
  let point := d.digits * Nat.pow 10 d.exponent.toNat * i.den
  let unit := Nat.pow 10 (-d.exponent).toNat * i.num
  if i.closed then i.lower * unit ≤ point && point ≤ i.upper * unit
  else i.lower * unit < point && point < i.upper * unit

/-- How many times `num` can be multiplied by ten and stay below `den / 10`, up to a bound. -/
def leadingZeros : Nat → Nat → Nat → Nat
  | 0, _, _ => 0
  | bound + 1, num, den => if num * 10 < den then leadingZeros bound (num * 10) den + 1 else 0

/-- The least `p` with `num / den < 10 ^ p`. -/
def decimalPoint (num den : Nat) : Int :=
  if den ≤ num then ((Nat.toDigits 10 (num / den)).length : Int)
  else -(leadingZeros 400 num den : Int)

/-- The better of the two neighbours with `count` digits, if one of them reads back. -/
def Interval.neighbour? (tie : Tie) (i : Interval) (point : Int) (count : Nat) : Option Decimal :=
  let k := point - count
  let num := i.value * i.num * Nat.pow 10 (-k).toNat
  let den := i.den * Nat.pow 10 k.toNat
  let below : Decimal := ⟨num / den, k⟩
  let above : Decimal := ⟨num / den + 1, k⟩
  match i.contains below, i.contains above with
  | true, true =>
    let rest := num % den
    if 2 * rest < den then some below
    else if den < 2 * rest then some above
    else match tie with
      | .up => some above
      | .even => if below.digits % 2 = 0 then some below else some above
  | true, false => some below
  | false, true => some above
  | false, false => none

/-- The same decimal without zeros at the end, given a bound on their number. -/
def Decimal.trim : Nat → Decimal → Decimal
  | 0, d => d
  | bound + 1, d =>
    if d.digits ≠ 0 ∧ d.digits % 10 = 0 then trim bound ⟨d.digits / 10, d.exponent + 1⟩ else d

/-- The nearest of the shortest decimals that read back as the finite number `n`, apart from its
sign. Seventeen digits always suffice. -/
def shortest (tie : Tie) (n : Number) : Decimal :=
  let i := n.interval
  let point := decimalPoint (i.value * i.num) i.den
  let found := (List.range 17).findSome? fun fewer => i.neighbour? tie point (fewer + 1)
  (found.getD ⟨0, 0⟩).trim 20

end DataBinding.Number
