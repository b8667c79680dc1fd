import DataBinding.Text

/-!
Interpolations: a property key between double braces in the middle of a text. The first opening that
can be closed counts, and it is closed by the first closing after at least one character; neither may
be separated from the other by the end of a line. The key is what stands between them, without white
space at its ends.
-/
namespace DataBinding.Text

/-- The characters that end a line. -/
def endsLine (c : Char) : Bool :=
  c == '\n' || c == '\r' || c == '\u2028' || c == '\u2029'

/-- A text split at its interpolation. -/
structure Interpolation where
  /-- What stands before the opening braces. -/
  before : List Char
  /-- What stands between the braces. -/
  inner : List Char
  /-- What stands after the closing braces. -/
  after : List Char
  deriving DecidableEq

namespace Interpolation

/-- The characters up to the first closing braces on this line, and those after the braces. -/
def untilClosed : List Char → Option (List Char × List Char)
  | [] => none
  | c :: rest =>
    match c, rest with
    | '}', '}' :: after => some ([], after)
    | _, _ =>
      if endsLine c then none
      else (untilClosed rest).map fun found => (c :: found.1, found.2)

/-- What an opening encloses: at least one character, up to the first closing braces. -/
def enclosed : List Char → Option (List Char × List Char)
  | [] => none
  | c :: rest =>
    if endsLine c then none
    else (untilClosed rest).map fun found => (c :: found.1, found.2)

/-- The first opening that encloses something. -/
def split : List Char → Option Interpolation
  | [] => none
  | c :: rest =>
    let here := match c, rest with
      | '{', '{' :: inside => enclosed inside
      | _, _ => none
    match here with
    | some (inner, after) => some ⟨[], inner, after⟩
    | none => (split rest).map fun found => ⟨c :: found.before, found.inner, found.after⟩

/-- The interpolation of a text, if it has one. -/
def find? (text : String) : Option Interpolation := split text.toList

/-- The property that the interpolation shows. -/
def key (i : Interpolation) : String := String.ofList (trim i.inner)

/-- The number of bytes before the opening braces. -/
def start (i : Interpolation) : Nat := byteCount i.before

/-- The number of bytes up to the end of the closing braces. -/
def stop (i : Interpolation) : Nat := i.start + byteCount i.inner + 4

/-- The text with other characters in place of the braces and what they enclose. -/
def substitute (i : Interpolation) (replacement : String) : String :=
  String.ofList i.before ++ replacement ++ String.ofList i.after

end Interpolation
end DataBinding.Text
