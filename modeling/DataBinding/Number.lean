/-!
Numbers are binary64 values kept as their sixty-four bits, so that comparing, rounding and printing
them is arithmetic on natural numbers. A finite number stands for `± mantissa * 2 ^ exponent`.
-/
namespace DataBinding

/-- A binary64 number, given by its bits. -/
structure Number where
  bits : UInt64
  deriving DecidableEq, Inhabited

namespace Number

/-- The bits without the sign. On finite numbers it grows with the distance from zero. -/
def magnitude (n : Number) : Nat := n.bits.toNat % (1 <<< 63)

/-- Whether the sign bit is set; zeros and the other special values have one too. -/
def isNegative (n : Number) : Bool := 1 <<< 63 ≤ n.bits.toNat

/-- The magnitude of the two infinities, above that of every finite number. -/
def infinite : Nat := 2047 <<< 52

/-- The number with this sign and this magnitude. -/
def ofMagnitude (negative : Bool) (magnitude : Nat) : Number :=
  ⟨UInt64.ofNat ((if negative then 1 <<< 63 else 0) + magnitude)⟩

def isNaN (n : Number) : Bool := infinite < n.magnitude

def isInfinite (n : Number) : Bool := n.magnitude == infinite

def isFinite (n : Number) : Bool := n.magnitude < infinite

def isZero (n : Number) : Bool := n.magnitude == 0

/-- The eleven bits of the exponent. -/
def exponentField (n : Number) : Nat := n.magnitude >>> 52

/-- The integer `m` of a finite number `m * 2 ^ e`: the leading one is written only in the bits of
subnormal numbers, where it is absent. -/
def mantissa (n : Number) : Nat :=
  n.magnitude % (1 <<< 52) + (if n.exponentField = 0 then 0 else 1 <<< 52)

/-- The exponent `e` of a finite number `m * 2 ^ e`. -/
def exponent (n : Number) : Int := (max n.exponentField 1 : Nat) - 1075

/-- The same number with the other sign. -/
def negate (n : Number) : Number := ofMagnitude (!n.isNegative) n.magnitude

def nan : Number := ofMagnitude false (infinite + (1 <<< 51))

def infinity : Number := ofMagnitude false infinite

/-- Equality of numbers: a NaN equals nothing, itself included, and both zeros are equal. -/
def same (a b : Number) : Bool :=
  !a.isNaN && !b.isNaN && (a.bits == b.bits || (a.isZero && b.isZero))

/-- Only a NaN differs from itself. -/
theorem same_self (n : Number) : same n n = !n.isNaN := by
  simp [same]

theorem same_comm (a b : Number) : same a b = same b a := by
  simp [same, Bool.and_comm, BEq.comm (a := a.bits)]

end Number
end DataBinding
