import DataBinding.Arena
import DataBinding.Node
import DataBinding.Properties
import DataBinding.Subscriber

/-!
The world: all objects, pages and subscribers, who depends on what, and which subscribers the host
program still holds. It is plain data; callbacks appear in it only by reference.
-/
namespace DataBinding

/-- Binds pages to one data object and keeps the watchers of its bindings. -/
structure Binder where
  data : ObjectId
  watchers : List SubscriberId := []
  deriving DecidableEq, Inhabited

/-- A page element bound to a data object. -/
structure ViewModel where
  element : NodeId
  data : ObjectId
  watchers : List SubscriberId
  deriving DecidableEq, Inhabited

/-- The state shared by everything that is bound together. -/
structure World where
  objects : Arena Properties := .empty
  /-- For each tracked property its subscribers, in the order in which they were registered. -/
  deps : Arena (List SubscriberId) := .empty
  subscribers : Arena Subscriber := .empty
  /-- The subscribers that are collecting dependencies, the innermost first. An empty entry hides
  those below it. -/
  targets : List (Option SubscriberId) := []
  nodes : Arena Node := .empty
  /-- The subscribers that the host program holds by themselves, once for each time. -/
  handles : List SubscriberId := []
  /-- The binders that the host program has not given up. -/
  binders : Arena (Option Binder) := .empty
  /-- The bundles of watchers that the host program has not given up. -/
  bundles : Arena (Option (List SubscriberId)) := .empty
  /-- The view models that the host program has not given up. -/
  viewModels : Arena (Option ViewModel) := .empty
  deriving Inhabited

namespace World

/-- The properties of an object. -/
def properties (w : World) (o : ObjectId) : Properties := (w.objects.get? o.index).getD {}

/-- The entries of a dependency list, with those whose subscriber is gone and not yet removed. -/
def entries (w : World) (d : DepId) : List SubscriberId := (w.deps.get? d.index).getD []

def subscriber? (w : World) (s : SubscriberId) : Option Subscriber := w.subscribers.get? s.index

def watcher? (w : World) (s : SubscriberId) : Option Watcher := (w.subscriber? s).bind (·.watcher?)

def node? (w : World) (n : NodeId) : Option Node := w.nodes.get? n.index

def element? (w : World) (n : NodeId) : Option Element := (w.node? n).bind (·.element?)

def binder? (w : World) (b : BinderId) : Option Binder := (w.binders.get? b.index).join

def bundle? (w : World) (b : BundleId) : Option (List SubscriberId) :=
  (w.bundles.get? b.index).join

def viewModel? (w : World) (v : ViewModelId) : Option ViewModel :=
  (w.viewModels.get? v.index).join

/-- The subscriber to which reads are attributed. -/
def target? (w : World) : Option SubscriberId := w.targets.head?.join

/-- Whether the host program, or the stack of collecting subscribers, holds a subscriber. -/
def holds (w : World) (s : SubscriberId) : Bool :=
  w.handles.contains s || w.targets.contains (some s) ||
    w.binders.cells.any (fun b => b.any (·.watchers.contains s)) ||
    w.bundles.cells.any (fun b => b.any (·.contains s)) ||
    w.viewModels.cells.any (fun v => v.any (·.watchers.contains s))

/-- Adds an object. -/
def newObject (w : World) (p : Properties) : World × ObjectId :=
  ({ w with objects := w.objects.push p }, ⟨w.objects.size⟩)

/-- Changes the properties of an object. -/
def modifyObject (w : World) (o : ObjectId) (f : Properties → Properties) : World :=
  { w with objects := w.objects.modify o.index f }

/-- Adds a property to an object that has none with the key. -/
def addProperty (w : World) (o : ObjectId) (key : String) (value : Value)
    (absent : (w.properties o).find? key = none) : World :=
  w.modifyObject o fun _ => (w.properties o).append key value absent

/-- Adds an empty dependency list. -/
def newDep (w : World) : World × DepId := ({ w with deps := w.deps.push [] }, ⟨w.deps.size⟩)

/-- Adds a subscriber. -/
def newSubscriber (w : World) (s : Subscriber) : World × SubscriberId :=
  ({ w with subscribers := w.subscribers.push s }, ⟨w.subscribers.size⟩)

/-- Adds a node. -/
def newNode (w : World) (n : Node) : World × NodeId :=
  ({ w with nodes := w.nodes.push n }, ⟨w.nodes.size⟩)

/-- Changes a node. -/
def modifyNode (w : World) (n : NodeId) (f : Node → Node) : World :=
  { w with nodes := w.nodes.modify n.index f }

/-- Lets the host program hold a subscriber once more. -/
def hold (w : World) (s : SubscriberId) : World := { w with handles := s :: w.handles }

/-- Lets the host program hold a subscriber once less. -/
def release (w : World) (s : SubscriberId) : World := { w with handles := w.handles.erase s }

def releaseBinder (w : World) (b : BinderId) : World :=
  { w with binders := w.binders.modify b.index fun _ => none }

def releaseBundle (w : World) (b : BundleId) : World :=
  { w with bundles := w.bundles.modify b.index fun _ => none }

def releaseViewModel (w : World) (v : ViewModelId) : World :=
  { w with viewModels := w.viewModels.modify v.index fun _ => none }

end World
end DataBinding
