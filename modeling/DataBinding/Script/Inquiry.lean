import DataBinding.Options.Reader
import DataBinding.Script.Expr
import DataBinding.Script.Show
import DataBinding.Text.Interpolation

/-!
Inquiries: operations that ask for a result and change nothing that has a name.
-/
namespace DataBinding.Script

/-- An inquiry. -/
inductive Inquiry where
  /-- The interpolation of a text, and the text with something else in its place. -/
  | interpolation (text replacement : String)
  /-- A text as character data and as an attribute value. -/
  | escape (text : String)
  /-- The directive that an attribute names. -/
  | directive (attributeName : String)
  /-- The texts and the kind of a value. -/
  | value (v : Expr)
  | describe (v : Expr)
  /-- Whether two values are identical, asked of either, and whether they are equal. -/
  | same (a b : Expr)
  /-- The options in a text. -/
  | options (text : String) (depth : Nat)

/-- What is told about a value. -/
def valueReport (w : World) (v : Value) : Answer :=
  .record [
    ("display", .text v.display),
    ("text", .text v.textContent),
    ("form", .text v.formValue),
    ("undefined", .bool v.isUndefined),
    ("nullish", .bool v.isNullish),
    ("object", .bool v.isObject),
    ("str", .optional .text v.asString?),
    ("num", .optional (fun n => .shown (.number (numberText n))) v.asNumber?),
    ("bool", .optional .bool v.asBool?),
    ("len", .optional (fun o => .count (w.properties o).size) v.asObject?)]

/-- What is told about the interpolation of a text. -/
def interpolationReport (replacement : String) (i : Text.Interpolation) : Answer :=
  .record [
    ("start", .count i.start),
    ("end", .count i.stop),
    ("key", .text i.key),
    ("out", .text (i.substitute replacement))]

/-- What is told about the directive that an attribute names. -/
def directiveReport (attributeName : String) : Answer :=
  let directive := Directive.ofAttribute? attributeName
  .record [
    ("name", .optional .text (Directive.nameOf? attributeName)),
    ("known", .optional (fun d => .text d.name) directive),
    ("display", .optional (fun d => .text d.attributeName) directive)]

/-- The result of an inquiry in a callback that was given `argument`. -/
def Inquiry.script (argument : Value) : Inquiry → Script Answer
  | .interpolation text replacement =>
    return .optional (interpolationReport replacement) (Text.Interpolation.find? text)
  | .escape text =>
    return .record [
      ("text", .text (Text.escapeData text)), ("attr", .text (Text.escapeAttribute text))]
  | .directive attributeName => return directiveReport attributeName
  | .value v => do
    let v ← v.eval argument
    return valueReport (← world) v
  | .describe v => do
    let v ← v.eval argument
    return .text ((← world).describeValue v)
  | .same a b => do
    let a ← a.eval argument
    let b ← b.eval argument
    return .bools [a.same b, b.same a, a.same b]
  | .options text depth => do
    match Options.parse text with
    | .error e => fail (.mount (.options e))
    | .ok parsed =>
      let data ← build parsed.data
      return .record [
        ("el", .text parsed.element),
        ("data", .shown ((← session).show (← world) depth data))]

end DataBinding.Script
