import DataBinding.Number.Layout
import DataBinding.Reference

/-!
Values that can be stored in an object and bound to a page. An object is a value by its reference:
two objects with equal properties are different values.
-/
namespace DataBinding

/-- A value. -/
inductive Value where
  | undefined
  | null
  | bool (b : Bool)
  | number (n : Number)
  | string (s : String)
  | object (o : ObjectId)
  deriving DecidableEq, Inhabited

namespace Value

/-- Identity of values: objects by reference, all others by content. A NaN is not identical to
itself, and both zeros are identical. -/
def same : Value → Value → Bool
  | .undefined, .undefined => true
  | .null, .null => true
  | .bool a, .bool b => a == b
  | .number a, .number b => a.same b
  | .string a, .string b => a == b
  | .object a, .object b => a == b
  | _, _ => false

/-- Whether the value is a number that is not identical to itself. -/
def isNaN : Value → Bool
  | .number n => n.isNaN
  | _ => false

/-- Only a NaN differs from itself. -/
theorem same_self (v : Value) : v.same v = !v.isNaN := by
  cases v <;> simp [same, isNaN, Number.same_self]

theorem same_comm (a b : Value) : a.same b = b.same a := by
  cases a <;> cases b <;> simp [same, Number.same_comm, BEq.comm]

def isUndefined : Value → Bool
  | .undefined => true
  | _ => false

/-- Whether the value stands for the absence of one. -/
def isNullish : Value → Bool
  | .undefined => true
  | .null => true
  | _ => false

def isObject : Value → Bool
  | .object _ => true
  | _ => false

def asObject? : Value → Option ObjectId
  | .object o => some o
  | _ => none

def asString? : Value → Option String
  | .string s => some s
  | _ => none

def asNumber? : Value → Option Number
  | .number n => some n
  | _ => none

def asBool? : Value → Option Bool
  | .bool b => some b
  | _ => none

/-- The text of a value inside other text. -/
def display : Value → String
  | .undefined => "undefined"
  | .null => "null"
  | .bool true => "true"
  | .bool false => "false"
  | .number n => Number.shown.write n
  | .string s => s
  | .object _ => "[object Object]"

/-- The text that a node shows for a value: nothing where a value is absent. -/
def textContent (v : Value) : String := if v.isNullish then "" else v.display

/-- The text that a form control holds for a value: only `null` leaves it empty. -/
def formValue : Value → String
  | .null => ""
  | v => v.display

end Value
end DataBinding
