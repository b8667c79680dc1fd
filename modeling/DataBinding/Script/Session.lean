import DataBinding.Script.Answer

/-!
The session: the state of a script as a host program. It names things, holds the subscribers, binders
and view models that have a name, and collects what the current step reports.
-/
namespace DataBinding.Script

/-- Names for things of one kind. -/
structure Names (α : Type) where
  entries : List (String × α) := []

namespace Names

variable {α : Type}

/-- What a name stands for. -/
def find? (names : Names α) (name : String) : Option α :=
  (names.entries.find? (·.1 == name)).map (·.2)

/-- The names without one of them. -/
def erase (names : Names α) (name : String) : Names α :=
  ⟨names.entries.filter fun entry => entry.1 != name⟩

/-- Lets a name stand for a thing, whatever it stood for before. -/
def put (names : Names α) (name : String) (x : α) : Names α :=
  ⟨(name, x) :: (names.erase name).entries⟩

/-- The least of the names of a thing. -/
def nameOf? [DecidableEq α] (names : Names α) (x : α) : Option String :=
  names.entries.foldl (fun best entry =>
    if entry.2 = x then
      match best with
      | none => some entry.1
      | some least => if entry.1 < least then some entry.1 else best
    else best) none

end Names

/-- The state of a script. -/
structure Session where
  objects : Names ObjectId := {}
  nodes : Names NodeId := {}
  deps : Names DepId := {}
  subscribers : Names SubscriberId := {}
  watchers : Names SubscriberId := {}
  bundles : Names BundleId := {}
  binders : Names BinderId := {}
  viewModels : Names ViewModelId := {}
  /-- The number of collecting subscribers that the script has pushed and not popped. -/
  guards : Nat := 0
  /-- For each callback with operations, how many of its runs have started. -/
  started : Arena Nat := .empty
  /-- What callbacks have recorded in this step, the last first. -/
  log : List Event := []
  /-- The results so far of the operations inside each hiding of the collecting subscribers, the
  innermost first, and its last result first. -/
  collected : List (List Answer) := []
  /-- The result of this step, once it is known. -/
  answer : Option Answer := none

instance : Inhabited Session := ⟨{}⟩

end DataBinding.Script

namespace DataBinding

/-- A part of a script: it goes on with a result, or with the reason why there is none. -/
def Script (α : Type) : Type :=
  (Except Script.ScriptError α → Program Script.Session) → Program Script.Session

namespace Script

variable {α : Type}

instance : Monad Script where
  pure x := fun next => next (.ok x)
  bind part f := fun next => part fun
    | .ok x => f x next
    | .error e => next (.error e)

/-- Ends without a result. -/
def fail (e : ScriptError) : Script α := fun next => next (.error e)

/-- The state of the script. -/
def session : Script Session := fun next => .look fun s _ => next (.ok s)

/-- The world. -/
def world : Script World := fun next => .look fun _ w => next (.ok w)

/-- Changes the state of the script. -/
def change (f : Session → Session) : Script Unit := fun next => .keep f (next (.ok ()))

/-- Sends a request to the world. -/
def call (r : Request (Program Session)) : Script Reply := fun next =>
  .call r fun reply => next (.ok reply)

/-- Sends a request that runs no callback. -/
def act (a : Action) : Script Reply := call (.act a)

/-- Adds an object. -/
def newObject (entries : List (String × Value)) : Script ObjectId := do
  match ← act (.newObject entries) with
  | .object o => return o
  | _ => return default

/-- Adds a node. -/
def newNode (a : Action) : Script NodeId := do
  match ← act a with
  | .node n => return n
  | _ => return default

/-- What a name stands for among the names of one kind. -/
def resolve (kind : Kind) (names : Session → Names α) (name : String) : Script α := do
  match (names (← session)).find? name with
  | some x => return x
  | none => fail (.unnamed kind name)

def object (name : String) : Script ObjectId := resolve .object (·.objects) name

def node (name : String) : Script NodeId := resolve .node (·.nodes) name

def dep (name : String) : Script DepId := resolve .dep (·.deps) name

def binder (name : String) : Script BinderId := resolve .binder (·.binders) name

def viewModel (name : String) : Script ViewModelId := resolve .viewModel (·.viewModels) name

/-- The subscriber with a name; a watcher of that name comes first. -/
def subscriber (name : String) : Script SubscriberId := do
  match (← session).watchers.find? name with
  | some s => return s
  | none => resolve .subscriber (·.subscribers) name

/-- The watcher with a name. -/
def watcher (name : String) : Script Watcher := do
  let s ← resolve .watcher (·.watchers) name
  return ((← world).watcher? s).getD default

def nameObject (name : String) (o : ObjectId) : Script Unit :=
  change fun s => { s with objects := s.objects.put name o }

def nameNode (name : String) (n : NodeId) : Script Unit :=
  change fun s => { s with nodes := s.nodes.put name n }

def nameDep (name : String) (d : DepId) : Script Unit :=
  change fun s => { s with deps := s.deps.put name d }

/-- Gives a name, if there is one. -/
def naming (name : Option String) (give : String → Script Unit) : Script Unit :=
  match name with
  | some name => give name
  | none => return ()

/-- Names a value if it is an object. -/
def nameValue (name : Option String) (v : Value) : Script Unit :=
  match name, v with
  | some name, .object o => nameObject name o
  | _, _ => return ()

/-- Takes a name away and gives up what it stood for; the result tells whether there was one. -/
def drop (kind : Kind) (name : String) : Script Bool := do
  let s ← session
  match kind with
  | .object =>
    change fun s => { s with objects := s.objects.erase name }
    return (s.objects.find? name).isSome
  | .node =>
    change fun s => { s with nodes := s.nodes.erase name }
    return (s.nodes.find? name).isSome
  | .dep =>
    change fun s => { s with deps := s.deps.erase name }
    return (s.deps.find? name).isSome
  | .subscriber =>
    change fun s => { s with subscribers := s.subscribers.erase name }
    release (s.subscribers.find? name) .release
  | .watcher =>
    change fun s => { s with watchers := s.watchers.erase name }
    release (s.watchers.find? name) .release
  | .bundle =>
    change fun s => { s with bundles := s.bundles.erase name }
    release (s.bundles.find? name) .releaseBundle
  | .binder =>
    change fun s => { s with binders := s.binders.erase name }
    release (s.binders.find? name) .releaseBinder
  | .viewModel =>
    change fun s => { s with viewModels := s.viewModels.erase name }
    release (s.viewModels.find? name) .releaseViewModel
where
  /-- Gives up a thing, if there is one. -/
  release {α : Type} (x : Option α) (give : α → Action) : Script Bool := do
    match x with
    | none => return false
    | some x =>
      let _ ← act (give x)
      return true

/-- Names a subscriber; one that had the name before is given up. -/
def nameSubscriber (name : String) (s : SubscriberId) : Script Unit := do
  let _ ← drop .subscriber name
  change fun session => { session with subscribers := session.subscribers.put name s }

/-- Names a watcher; one that had the name before is given up. -/
def nameWatcher (name : String) (s : SubscriberId) : Script Unit := do
  let _ ← drop .watcher name
  change fun session => { session with watchers := session.watchers.put name s }

/-- Names a bundle; one that had the name before is given up. -/
def nameBundle (name : String) (b : BundleId) : Script Unit := do
  let _ ← drop .bundle name
  change fun session => { session with bundles := session.bundles.put name b }

/-- Names a binder; one that had the name before is given up. -/
def nameBinder (name : String) (b : BinderId) : Script Unit := do
  let _ ← drop .binder name
  change fun session => { session with binders := session.binders.put name b }

/-- Names a view model; one that had the name before is given up. -/
def nameViewModel (name : String) (v : ViewModelId) : Script Unit := do
  let _ ← drop .viewModel name
  change fun session => { session with viewModels := session.viewModels.put name v }

/-- The program of a part of a script. -/
def program (part : Script Answer) (next : Answer → Program Session) : Program Session :=
  part fun
    | .ok answer => next answer
    | .error e => next (.error e)

end Script
end DataBinding
