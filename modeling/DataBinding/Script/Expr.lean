import DataBinding.Script.Session
import DataBinding.Json.Reader

/-!
Expressions: the values that a script writes down. Evaluating one adds the objects it describes to
the world.
-/
namespace DataBinding.Script

/-- An expression. -/
inductive Expr where
  | value (v : Value)
  /-- A new object. -/
  | object (entries : List (String × Expr))
  /-- An object by its name. -/
  | named (name : String)
  /-- The value of a document. -/
  | json (text : String)
  /-- What the running callback was given. -/
  | argument

instance : Inhabited Expr := ⟨.argument⟩

/-- A fault in a text that should hold a document. -/
def faultError : Json.Fault → ScriptError
  | .truncated => .mount (.options .truncated)
  | .malformed => .mount (.options .malformed)

/-- The document in a text. -/
def document (text : String) : Script Json :=
  match Json.parse text with
  | .ok json => return json
  | .error f => fail (faultError f)

/-- The value of a document, with new objects. -/
def build (json : Json) : Script Value := do
  match ← act (.build json) with
  | .value v => return v
  | _ => return .undefined

mutual

/-- The value of an expression in a callback that was given `argument`. -/
def Expr.eval (argument : Value) : Expr → Script Value
  | .value v => return v
  | .object entries => do
    let entries ← evalEntries argument entries
    return .object (← newObject entries)
  | .named name => return .object (← Script.object name)
  | .json text => do build (← document text)
  | .argument => return argument

/-- The values of the entries of an object. -/
def evalEntries (argument : Value) : List (String × Expr) → Script (List (String × Value))
  | [] => return []
  | (key, e) :: rest => do
    let value ← e.eval argument
    let values ← evalEntries argument rest
    return (key, value) :: values

end

end DataBinding.Script
