import DataBinding.World

/-!
Who depends on what. Reading a tracked property registers the subscriber that is collecting at that
moment, if there is one; registering is adding an entry to the property's dependency list, whether or
not the subscriber is listed there already. A watcher collects during the one read with which it
begins, and is thereby registered with the property if that is tracked; whenever it is told of a change
it reads the property again, unrecorded, and reacts only to a value that is not identical to the one it
remembers.
-/
namespace DataBinding.World

/-- Adds an entry for a subscriber to a dependency list. -/
def register (w : World) (d : DepId) (s : SubscriberId) : World :=
  { w with deps := w.deps.modify d.index (· ++ [s]) }

/-- Registers the subscriber that is collecting, if there is one. -/
def depend (w : World) (d : DepId) : World :=
  match w.target? with
  | some s => w.register d s
  | none => w

/-- Makes a subscriber the one that collects, or hides the one that does. -/
def enter (w : World) (entry : Option SubscriberId) : World :=
  { w with targets := entry :: w.targets }

/-- Undoes the last `enter`. -/
def leave (w : World) : World := { w with targets := w.targets.tail }

/-- The value of a property, read without being recorded; a missing property is undefined. -/
def peek (w : World) (o : ObjectId) (key : String) : Value :=
  (((w.properties o).find? key).map (·.value)).getD .undefined

/-- The value of a property; if the property is tracked, the collecting subscriber is registered. -/
def read (w : World) (o : ObjectId) (key : String) : World × Value :=
  match (w.properties o).dep? key with
  | some d => (w.depend d, w.peek o key)
  | none => (w, w.peek o key)

/-- Entering and leaving in turn changes nothing. -/
@[simp] theorem leave_enter (w : World) (entry : Option SubscriberId) :
    (w.enter entry).leave = w := rfl

/-- Nothing is registered while the collecting subscriber is hidden. -/
theorem read_enter_none (w : World) (o : ObjectId) (key : String) :
    (w.enter none).read o key = (w.enter none, w.peek o key) := by
  unfold read
  split <;> rfl

/-- Remembers a value as the last one that a watcher read. -/
def remember (w : World) (s : SubscriberId) (value : Value) : World :=
  { w with subscribers := w.subscribers.modify s.index (·.remember value) }

/-- Adds a watcher of a property. -/
def watch (w : World) (root : ObjectId) (key : String) (reaction : Reaction) :
    World × SubscriberId :=
  let (w, s) := w.newSubscriber (.watcher ⟨root, key, .undefined, reaction⟩)
  let (w, initial) := (w.enter (some s)).read root key
  (w.leave.remember s initial, s)

/-- What a watcher reads when it is told of a change: the value, if it is a new one. The watcher
remembers it before anything else happens. -/
def refresh (w : World) (s : SubscriberId) (watcher : Watcher) : World × Option Value :=
  let (w, current) := (w.enter none).read watcher.root watcher.key
  let w := w.leave
  if watcher.cached.same current then (w, none) else (w.remember s current, some current)

/-- The values that the given watchers remember, each with the key of its property. -/
def cachedValues (w : World) (watchers : List SubscriberId) : List (String × Value) :=
  watchers.filterMap fun s => (w.watcher? s).map fun watcher => (watcher.key, watcher.cached)

end DataBinding.World
