import DataBinding.Number.Nearest

/-!
Documents of plain data, the values that JSON text can hold, and how their numerals are read. Members
keep the order and the repetitions of the text.

The digits of a numeral are gathered into a significand as long as it fits sixty-four bits; an integral
digit beyond that counts as a power of ten, a fractional one is passed over. A numeral that is not a
sixty-four-bit integer becomes its significand, rounded, times or divided by a power of ten, rounded
again at each step. This is close to the written value but not always the number nearest to it.
-/
namespace DataBinding

/-- A numeral of a document. Integers of sixty-four bits are kept apart from all other numerals. -/
inductive Numeral where
  | integer (i : Int)
  | float (n : Number)
  deriving DecidableEq, Inhabited

/-- The number that a numeral stands for. -/
def Numeral.toNumber : Numeral → Number
  | .integer i => .ofInt i
  | .float n => n

/-- A document. -/
inductive Json where
  | null
  | bool (b : Bool)
  | number (n : Numeral)
  | string (s : String)
  | array (items : List Json)
  | object (members : List (String × Json))
  deriving Inhabited

namespace Json

/-- Why a text is not a document. -/
inductive Fault where
  /-- The text ends where more is needed. -/
  | truncated
  /-- A character, or a value, is not allowed where it stands. -/
  | malformed
  deriving DecidableEq

/-- Reads something at the start of a text and returns it with the unread rest. -/
abbrev Reader (α : Type) := List Char → Except Fault (α × List Char)

/-- The fault of finding something else at the start of a text than what is needed. -/
def unexpected : List Char → Fault
  | [] => .truncated
  | _ :: _ => .malformed

/-- The value of a decimal digit. -/
def digit? (c : Char) : Option Nat :=
  if '0' ≤ c ∧ c ≤ '9' then some (c.toNat - 48) else none

/-- Takes digits into a significand while it fits sixty-four bits, and counts them. -/
def takeDigits (significand count : Nat) : List Char → Nat × Nat × List Char
  | [] => (significand, count, [])
  | c :: rest =>
    match digit? c with
    | none => (significand, count, c :: rest)
    | some d =>
      if significand * 10 + d < 1 <<< 64 then takeDigits (significand * 10 + d) (count + 1) rest
      else (significand, count, c :: rest)

/-- Counts and passes over digits. -/
def passDigits (count : Nat) : List Char → Nat × List Char
  | [] => (count, [])
  | c :: rest => if (digit? c).isSome then passDigits (count + 1) rest else (count, c :: rest)

/-- The value of all the digits at the start of a text. -/
def allDigits (value : Nat) : List Char → Nat × List Char
  | [] => (value, [])
  | c :: rest =>
    match digit? c with
    | none => (value, c :: rest)
    | some d => allDigits (value * 10 + d) rest

/-- A number divided by a power of ten, in steps of at most `10 ^ 308`. -/
def divideByTens (n : Number) (k : Nat) : Number :=
  if k ≤ 308 then n.div (.powerOfTen k)
  else if n.isZero then n
  else divideByTens (n.div (.powerOfTen 308)) (k - 308)
  termination_by k

/-- A significand times a power of ten, or `none` if it is beyond the finite numbers. -/
def scale? (negative : Bool) (significand : Nat) (exponent : Int) : Option Number :=
  let n := Number.ofInt significand
  let signed (m : Number) : Number := if negative then m.negate else m
  if exponent < 0 then some (signed (divideByTens n exponent.natAbs))
  else if 308 < exponent then if n.isZero then some (signed n) else none
  else
    let product := n.mul (.powerOfTen exponent.toNat)
    if product.isInfinite then none else some (signed product)

/-- The numeral with this significand and exponent, which ends here. -/
def finishNumeral (negative : Bool) (significand : Nat) (exponent : Int) : Reader Numeral :=
  fun rest =>
    match scale? negative significand exponent with
    | some n => .ok (.float n, rest)
    | none => .error .malformed

/-- The written exponent, after its letter. -/
def readExponent (negative : Bool) (significand : Nat) (exponent : Int) : Reader Numeral :=
  fun text =>
    let (down, digits) := match text with
      | '+' :: rest => (false, rest)
      | '-' :: rest => (true, rest)
      | rest => (false, rest)
    match digits with
    | [] => .error .truncated
    | c :: rest =>
      match digit? c with
      | none => .error .malformed
      | some d =>
        let (value, rest) := allDigits d rest
        finishNumeral negative significand (if down then exponent - value else exponent + value) rest

/-- What follows the digits of a numeral with a fraction, or with more digits than fit. -/
def readExponent? (negative : Bool) (significand : Nat) (exponent : Int) : Reader Numeral
  | 'e' :: rest => readExponent negative significand exponent rest
  | 'E' :: rest => readExponent negative significand exponent rest
  | rest => finishNumeral negative significand exponent rest

/-- The fraction, after its point: at least one digit. -/
def readFraction (negative : Bool) (significand : Nat) (exponent : Int) : Reader Numeral
  | [] => .error .truncated
  | c :: rest =>
    if (digit? c).isNone then .error .malformed
    else
      let (significand, count, rest) := takeDigits significand 0 (c :: rest)
      let (_, rest) := passDigits 0 rest
      readExponent? negative significand (exponent - count) rest

/-- An integer, if it fits sixty-four bits and is not a negative zero. -/
def integer? (negative : Bool) (significand : Nat) : Option Int :=
  if !negative then some significand
  else if 0 < significand ∧ significand ≤ 1 <<< 63 then some (-significand)
  else none

/-- What follows the integral digits. -/
def readAfterInteger (negative : Bool) (significand excess : Nat) : Reader Numeral
  | '.' :: rest => readFraction negative significand excess rest
  | 'e' :: rest => readExponent negative significand excess rest
  | 'E' :: rest => readExponent negative significand excess rest
  | rest =>
    match if excess = 0 then integer? negative significand else none with
    | some i => .ok (.integer i, rest)
    | none => finishNumeral negative significand excess rest

/-- A numeral after its sign: no digit may follow a leading zero. -/
def readUnsigned (negative : Bool) : Reader Numeral
  | [] => .error .truncated
  | c :: rest =>
    match digit? c with
    | none => .error .malformed
    | some 0 =>
      match rest with
      | d :: more =>
        if (digit? d).isSome then .error .malformed
        else readAfterInteger negative 0 0 (d :: more)
      | [] => readAfterInteger negative 0 0 []
    | some (d + 1) =>
      let (significand, _, rest) := takeDigits (d + 1) 1 rest
      let (excess, rest) := passDigits 0 rest
      readAfterInteger negative significand excess rest

/-- A numeral. -/
def readNumeral : Reader Numeral
  | '-' :: rest => readUnsigned true rest
  | text => readUnsigned false text

end Json
end DataBinding
