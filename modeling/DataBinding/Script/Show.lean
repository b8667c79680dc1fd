import DataBinding.Script.Session

/-!
How a script shows values, objects and nodes: by the least of their names where they have one.
-/
namespace DataBinding.Script

/-- A number in a report; unlike on a page, a negative zero is told apart. -/
def numberText (n : Number) : String :=
  if n.isZero && n.isNegative then "-0" else Number.shown.write n

/-- A value without the properties of an object. -/
def Session.showFlat (s : Session) : Value → Shown
  | .undefined => .undefined
  | .null => .null
  | .bool b => .bool b
  | .number n => .number (numberText n)
  | .string t => .string t
  | .object o =>
    match s.objects.nameOf? o with
    | some name => .named name
    | none => .object

/-- A value with the properties of objects down to a depth. -/
def Session.show (s : Session) (w : World) : Nat → Value → Shown
  | depth + 1, .object o =>
    .slots ((w.properties o).slots.map fun slot =>
      (slot.key, s.show w depth slot.value, slot.dep.map fun d => (w.entries d).length))
  | _, v => s.showFlat v

/-- The properties of an object, and those of the objects in them down to a depth. -/
def Session.dump (s : Session) (w : World) (depth : Nat) (o : ObjectId) : Dump :=
  (w.properties o).slots.map fun slot =>
    (slot.key, s.show w (depth - 1) slot.value, slot.dep.map fun d => (w.entries d).length)

/-- A node by its name, or else by its description. -/
def Session.label (s : Session) (w : World) (n : NodeId) : String :=
  match s.nodes.nameOf? n with
  | some name => "@" ++ name
  | none => w.describeNode n

/-- The name of a subscriber; watchers come first, and one whose name was taken away has none. -/
def Session.subscriberName (s : Session) (id : SubscriberId) : String :=
  ((s.watchers.nameOf? id).orElse fun _ => s.subscribers.nameOf? id).getD "?"

/-- The keys that watchers watch, each with the value that the watcher remembers. -/
def Session.watcherList (s : Session) (w : World) (watchers : List SubscriberId) : Answer :=
  .list ((w.cachedValues watchers).map fun (key, value) =>
    .list [.text key, .shown (s.showFlat value)])

/-- A value as this moment shows it. -/
def showNow (v : Value) : Script Answer := do
  return .shown ((← session).showFlat v)

/-- A label as this moment shows it. -/
def labelNow (n : NodeId) : Script Answer := do
  return .text ((← session).label (← world) n)

/-- A list of watchers as this moment shows it. -/
def watcherListNow (watchers : List SubscriberId) : Script Answer := do
  return (← session).watcherList (← world) watchers

/-- What a script asks to see after each of its steps. -/
inductive View where
  | markup (node : String)
  | control (node : String)
  | object (name : String)
  | dep (name : String)
  deriving DecidableEq, Inhabited

/-- A view at a moment; nothing is shown for a name that is not given. -/
def Session.view (s : Session) (w : World) : View → Answer
  | .markup node => .optional (fun n => .text (w.outerMarkup n)) (s.nodes.find? node)
  | .control node => .optional (fun n => .text (w.controlValue n)) (s.nodes.find? node)
  | .object name => .optional (fun o => .dump (s.dump w 1 o)) (s.objects.find? name)
  | .dep name => .optional (fun d => .count (w.entries d).length) (s.deps.find? name)

end DataBinding.Script
