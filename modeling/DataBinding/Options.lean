import DataBinding.Json
import DataBinding.Number.Layout
import DataBinding.Text.Quoted

/-!
Options of a view model, and what can be wrong with them: the selector of the element to bind, and
the data to bind it to. Options are written as a document, either with the members `el` and `data`
or as a sequence of the two; a missing `data` is `null`.
-/
namespace DataBinding

/-- Where a view model is mounted and on what. -/
structure Options where
  element : String
  data : Json
  deriving Inhabited

/-- A place in a text: a line counted from one, and the number of bytes of it that lie before. -/
structure Position where
  line : Nat
  column : Nat
  deriving DecidableEq, Inhabited

/-- What stands where something else is wanted. -/
inductive Found where
  | null
  | bool (b : Bool)
  | number (n : Numeral)
  | string (s : String)
  | sequence
  | map
  deriving DecidableEq, Inhabited

/-- What is wanted at a place of the options. -/
inductive Wanted where
  | string
  | options
  deriving DecidableEq, Inhabited

/-- Why a document is not a set of options. -/
inductive OptionsProblem where
  | mismatch (found : Found) (wanted : Wanted)
  | missingElement
  | unknownMember (key : String)
  | repeatedMember (key : String)
  | emptySequence
  deriving DecidableEq, Inhabited

/-- Why a text does not hold options. -/
inductive OptionsError where
  /-- The text ends too early. -/
  | truncated
  /-- The text is not a document. -/
  | malformed
  /-- The document is not a set of options. -/
  | invalid (problem : OptionsProblem) (position : Position)
  deriving DecidableEq, Inhabited

/-- Why a view model cannot be mounted. -/
inductive MountError where
  | emptySelector
  | targetNotFound (selector : String)
  | options (error : OptionsError)
  deriving DecidableEq, Inhabited

/-- A numeral as a message quotes it. -/
def Numeral.describe : Numeral → String
  | .integer i => "integer `" ++ Int.repr i ++ "`"
  | .float n => "floating point `" ++ Number.quoted.write n ++ "`"

def Found.describe : Found → String
  | .null => "null"
  | .bool true => "boolean `true`"
  | .bool false => "boolean `false`"
  | .number n => n.describe
  | .string s => "string " ++ Text.quote s
  | .sequence => "sequence"
  | .map => "map"

def Wanted.describe : Wanted → String
  | .string => "a string"
  | .options => "struct VmOptions"

def OptionsProblem.message : OptionsProblem → String
  | .mismatch found wanted =>
    "invalid type: " ++ found.describe ++ ", expected " ++ wanted.describe
  | .missingElement => "missing field `el`"
  | .unknownMember key => "unknown field `" ++ key ++ "`, expected `el` or `data`"
  | .repeatedMember key => "duplicate field `" ++ key ++ "`"
  | .emptySequence => "invalid length 0, expected struct VmOptions with 2 elements"

/-- The place as messages name it. -/
def Position.describe (p : Position) : String :=
  " at line " ++ Nat.repr p.line ++ " column " ++ Nat.repr p.column

/-- The message of an error. Only a document that was read up to the error is explained. -/
def OptionsError.message? : OptionsError → Option String
  | .truncated => none
  | .malformed => none
  | .invalid problem position =>
    some ("invalid view-model options: " ++ problem.message ++ position.describe)

/-- The message of an error, where it has one. -/
def MountError.message? : MountError → Option String
  | .emptySelector => some "mount selector is empty"
  | .targetNotFound selector => some ("mount target not found: " ++ selector)
  | .options error => error.message?

end DataBinding
