import DataBinding.Options
import DataBinding.World.Binding
import DataBinding.World.Selection

/-!
Mounting view models. The data is observed and the page below the element is bound to it; the view
model holds the watchers. Options are resolved in a document before anything is touched, so a mount
that fails leaves the world as it was.
-/
namespace DataBinding.World

mutual

/-- The value of a document. Sequences become objects keyed `"0"`, `"1"`, and so on. -/
def build (w : World) : Json → World × Value
  | .null => (w, .null)
  | .bool b => (w, .bool b)
  | .number n => (w, .number n.toNumber)
  | .string s => (w, .string s)
  | .array items =>
    let (w, entries) := w.buildItems 0 items
    let (w, o) := w.newObject (.ofEntries entries)
    (w, .object o)
  | .object members =>
    let (w, entries) := w.buildMembers members
    let (w, o) := w.newObject (.ofEntries entries)
    (w, .object o)

/-- The values of items, each under its number. -/
def buildItems (w : World) (number : Nat) : List Json → World × List (String × Value)
  | [] => (w, [])
  | item :: rest =>
    let (w, value) := w.build item
    let (w, entries) := w.buildItems (number + 1) rest
    (w, (Nat.repr number, value) :: entries)

/-- The values of members, each under its key. -/
def buildMembers (w : World) : List (String × Json) → World × List (String × Value)
  | [] => (w, [])
  | (key, json) :: rest =>
    let (w, value) := w.build json
    let (w, entries) := w.buildMembers rest
    (w, (key, value) :: entries)

end

/-- The object that a value is mounted as: itself, or a new empty one. -/
def dataObject (w : World) : Value → World × ObjectId
  | .object o => (w, o)
  | _ => w.newObject {}

/-- Mounts a value on an element; `none` if binding the page never ends. -/
def mount (w : World) (element : NodeId) (value : Value) : Option (World × ViewModelId) := do
  let (w, data) := w.dataObject value
  let (w, watchers) ← (w.observe (.object data)).bind data element
  return ({ w with viewModels := w.viewModels.push (some ⟨element, data, watchers⟩) },
    ⟨w.viewModels.size⟩)

/-- The element that options mean in a document; `none` if looking for it never ends. -/
def target (w : World) (document : NodeId) (options : Options) : Option (Except MountError NodeId) :=
  match Selector.parse? options.element with
  | none => some (.error .emptySelector)
  | some selector =>
    (w.find document selector).map fun
      | none => .error (.targetNotFound options.element)
      | some element => .ok element

/-- Mounts options in a document; `none` if looking for the element or binding the page never ends. -/
def mountOptions (w : World) (document : NodeId) (options : Options) :
    Option (Except MountError (World × ViewModelId)) := do
  match ← w.target document options with
  | .error e => return .error e
  | .ok element =>
    let (w, value) := w.build options.data
    return .ok (← w.mount element value)

end DataBinding.World
