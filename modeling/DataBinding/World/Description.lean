import DataBinding.Text.Quoted
import DataBinding.World.Page

/-!
Descriptions for programmers: one line that names the kind of a thing and its parts.
-/
namespace DataBinding

/-- A kind with named parts. -/
def describeParts (kind : String) (parts : List (String × String)) (open? : Bool) : String :=
  let shown := parts.map fun part => part.1 ++ ": " ++ part.2
  kind ++ " \x7b " ++ ", ".intercalate (if open? then shown ++ [".."] else shown) ++ " \x7d"

/-- A kind with one part. -/
def describeWrapped (kind part : String) : String := kind ++ "(" ++ part ++ ")"

/-- A list of descriptions. -/
def describeList (items : List String) : String := "[" ++ ", ".intercalate items ++ "]"

namespace World

/-- An object is described by its keys, and not by its values, which may lead back to it. -/
def describeObject (w : World) (o : ObjectId) : String :=
  let p := w.properties o
  describeParts "Object"
    [("keys", describeList (p.keys.map Text.quote)), ("tracked", Nat.repr p.trackedCount)] false

def describeValue (w : World) : Value → String
  | .undefined => "Undefined"
  | .null => "Null"
  | .bool true => describeWrapped "Bool" "true"
  | .bool false => describeWrapped "Bool" "false"
  | .number n => describeWrapped "Number" (Number.inspected.write n)
  | .string s => describeWrapped "String" (Text.quote s)
  | .object o => w.describeObject o

/-- A node is described by itself and the number of its children. -/
def describeNode (w : World) (n : NodeId) : String :=
  match w.node? n with
  | none => ""
  | some (.text content) => describeWrapped "Text" (Text.quote content)
  | some (.element e) =>
    describeParts "Element"
      [("tag", Text.quote e.tag), ("attributes", Nat.repr e.attributes.length),
        ("children", Nat.repr e.children.length)] false

/-- A watcher also has a reaction, which has no description. -/
def describeWatcher (w : World) (watcher : Watcher) : String :=
  describeParts "Watcher"
    [("key", Text.quote watcher.key), ("cached", w.describeValue watcher.cached)] true

def describeBinder (w : World) (b : Binder) : String :=
  describeParts "Compiler"
    [("data", w.describeObject b.data), ("watchers", Nat.repr b.watchers.length)] false

def describeViewModel (w : World) (v : ViewModel) : String :=
  describeParts "Vm"
    [("el", w.describeNode v.element), ("data", w.describeObject v.data),
      ("watcher_count", Nat.repr v.watchers.length)] false

end World
end DataBinding
