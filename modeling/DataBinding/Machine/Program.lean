import DataBinding.World.Mounting

/-!
Programs of the host. A program is a tree of requests to the world, each followed by what to do with
the reply; callbacks are programs that wait for a value. As a program may look at its own state and
at the world before it decides on the next request, and may do so at any nesting of calls, these trees
stand for every way in which a host can use the world.
-/
namespace DataBinding

/-- A request that runs no callback. -/
inductive Action where
  | newObject (entries : List (String × Value))
  | build (json : Json)
  /-- Reads a property on behalf of the collecting subscriber. -/
  | read (o : ObjectId) (key : String)
  | observe (v : Value)
  | newDep
  | depend (d : DepId)
  /-- Takes the innermost entry off the stack of collecting subscribers. -/
  | leave
  | release (s : SubscriberId)
  | newText (content : String)
  | newElement (tag : String)
  | appendChild (n child : NodeId)
  | setText (n : NodeId) (content : String)
  | setAttribute (n : NodeId) (name value : String)
  | setControlValue (n : NodeId) (value : String)
  | newBinder (data : ObjectId)
  | bind (b : BinderId) (root : NodeId)
  /-- Gives up a binder and keeps its watchers as a bundle. -/
  | detach (b : BinderId)
  | releaseBinder (b : BinderId)
  | releaseBundle (b : BundleId)
  | mount (element : NodeId) (v : Value)
  | mountOptions (options : Options) (document : NodeId)
  | releaseViewModel (v : ViewModelId)
  deriving Inhabited

/-- A request to the world. Some requests carry programs, of the type `P`. -/
inductive Request (P : Type) where
  | act (a : Action)
  /-- Adds a subscriber that runs a callback at every change. -/
  | subscribe (callback : Value → P)
  /-- Adds a watcher that runs a callback on every new value. -/
  | watch (root : ObjectId) (key : String) (callback : Value → P)
  /-- Adds a listener that runs a callback on what the control holds. -/
  | listen (n : NodeId) (callback : Value → P)
  /-- Adds an entry for a subscriber to a dependency list. -/
  | register (d : DepId) (s : SubscriberId)
  /-- Makes a subscriber the collecting one. The host keeps its entry on the stack until a program asks
  for the removal of an entry, and keeps it when a run is broken off. -/
  | enter (s : SubscriberId)
  | write (o : ObjectId) (key : String) (v : Value)
  /-- Writes a property of the data of a view model. -/
  | assign (vm : ViewModelId) (key : String) (v : Value)
  | notify (d : DepId)
  | update (s : SubscriberId)
  /-- Runs the listeners of a node. -/
  | dispatch (n : NodeId)
  /-- Edits a form control: it holds the text, and its listeners run. -/
  | input (n : NodeId) (text : String)
  /-- Runs a program while a subscriber collects. -/
  | collecting (s : SubscriberId) (body : P)
  /-- Runs a program while no subscriber collects. -/
  | untracked (body : P)
  /-- Breaks off everything that is in progress. -/
  | panic (message : String)

/-- What the host is told in reply to a request. -/
inductive Reply where
  | done
  /-- What the request is about is no longer held. -/
  | missing
  | value (v : Value)
  | object (o : ObjectId)
  | dep (d : DepId)
  | subscriber (s : SubscriberId)
  | node (n : NodeId)
  | binder (b : BinderId)
  | bundle (b : BundleId)
  | viewModel (v : ViewModelId)
  | refused (e : MountError)
  deriving Inhabited

/-- A program of a host with a state of type `σ`. -/
inductive Program (σ : Type) where
  | done
  /-- Goes on depending on the state of the host and on the world. -/
  | look (next : σ → World → Program σ)
  /-- Changes the state of the host. -/
  | keep (change : σ → σ) (next : Program σ)
  /-- Sends a request to the world. -/
  | call (request : Request (Program σ)) (next : Reply → Program σ)

instance {σ : Type} : Inhabited (Program σ) := ⟨.done⟩

namespace World

/-- Carries out a request that runs no callback; `none` if it never ends. -/
def perform (w : World) : Action → Option (World × Reply)
  | .newObject entries =>
    let (w, o) := w.newObject (.ofEntries entries)
    some (w, .object o)
  | .build json =>
    let (w, v) := w.build json
    some (w, .value v)
  | .read o key =>
    let (w, v) := w.read o key
    some (w, .value v)
  | .observe v => some (w.observe v, .done)
  | .newDep =>
    let (w, d) := w.newDep
    some (w, .dep d)
  | .depend d => some (w.depend d, .done)
  | .leave => some (w.leave, .done)
  | .release s => some (w.release s, .done)
  | .newText content =>
    let (w, n) := w.newNode (.text content)
    some (w, .node n)
  | .newElement tag =>
    let (w, n) := w.newNode (.element { tag := tag })
    some (w, .node n)
  | .appendChild n child => some (w.appendChild n child, .done)
  | .setText n content => some (w.setText n content, .done)
  | .setAttribute n name value => some (w.setAttribute n name value, .done)
  | .setControlValue n value => some (w.setControlValue n value, .done)
  | .newBinder data =>
    some ({ w with binders := w.binders.push (some ⟨data, []⟩) }, .binder ⟨w.binders.size⟩)
  | .bind b root =>
    match w.binder? b with
    | none => some (w, .missing)
    | some binder => do
      let (w, watchers) ← w.bind binder.data root
      let binder := { binder with watchers := binder.watchers ++ watchers }
      return ({ w with binders := w.binders.modify b.index fun _ => some binder }, .done)
  | .detach b =>
    match w.binder? b with
    | none => some (w, .missing)
    | some binder =>
      let bundles := w.bundles.push (some binder.watchers)
      some ({ w.releaseBinder b with bundles := bundles }, .bundle ⟨w.bundles.size⟩)
  | .releaseBinder b => some (w.releaseBinder b, .done)
  | .releaseBundle b => some (w.releaseBundle b, .done)
  | .mount element v => do
    let (w, vm) ← w.mount element v
    return (w, .viewModel vm)
  | .mountOptions options document =>
    (w.mountOptions document options).map fun
      | .error e => (w, .refused e)
      | .ok (w, vm) => (w, .viewModel vm)
  | .releaseViewModel v => some (w.releaseViewModel v, .done)

end World
end DataBinding
