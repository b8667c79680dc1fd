import DataBinding.Directive
import DataBinding.Text.Interpolation
import DataBinding.World.Page
import DataBinding.World.Observation

/-!
Binding a page to a data object. Every node below the root is visited once in document order, an
element before what then stands below it: a text node with an interpolation shows the property from
now on, and an element follows its directives in the order of its attributes. Each binding first
writes the present value and then adds a watcher that writes the later ones. Other nodes are left
alone.
-/
namespace DataBinding.World

/-- Lets a text node show the property of its interpolation, if it has one. The first value replaces
only the interpolation, later ones the whole text. -/
def bindText (w : World) (data : ObjectId) (n : NodeId) (content : String) :
    World × List SubscriberId :=
  match Text.Interpolation.find? content with
  | none => (w, [])
  | some found =>
    let (w, value) := w.read data found.key
    let w := w.setText n (found.substitute value.display)
    let (w, s) := w.watch data found.key (.showText n)
    (w, [s])

/-- Lets an element follow one directive. -/
def applyDirective (w : World) (data : ObjectId) (n : NodeId) (key : String) :
    Directive → World × SubscriberId
  | .text =>
    let (w, value) := w.read data key
    (w.setText n value.textContent).watch data key (.showText n)
  | .model =>
    let (w, value) := w.read data key
    let w := w.setControlValue n value.formValue
    (w.listen n (.writeBack data key)).watch data key (.showValue n)

/-- Lets an element follow its directives. -/
def bindAttributes (w : World) (data : ObjectId) (n : NodeId) :
    List Attribute → World × List SubscriberId
  | [] => (w, [])
  | a :: rest =>
    match Directive.ofAttribute? a.name with
    | none => w.bindAttributes data n rest
    | some d =>
      let (w, s) := w.applyDirective data n a.value d
      let (w, more) := w.bindAttributes data n rest
      (w, s :: more)

/-- Binds one node, without what stands below it. -/
def bindNode (w : World) (data : ObjectId) (n : NodeId) : World × List SubscriberId :=
  match w.node? n with
  | none => (w, [])
  | some (.text content) => w.bindText data n content
  | some (.element e) => w.bindAttributes data n e.attributes

/-- Binds what stands below a node, at most `depth` levels down; `none` if it reaches deeper. -/
def bindWithin (data : ObjectId) : Nat → World → NodeId → Option (World × List SubscriberId)
  | 0, _, _ => none
  | depth + 1, w, n =>
    (w.children n).foldlM (fun (w, watchers) child => do
      let (w, own) := w.bindNode data child
      if (w.children child).isEmpty then return (w, watchers ++ own)
      else
        let (w, below) ← bindWithin data depth w child
        return (w, watchers ++ own ++ below)) (w, [])

/-- The depth at which a walk must have come back to a node for the third time. It then finds the
same children again and never ends. -/
def walkBound (w : World) : Nat := 2 * w.nodes.size + 2

/-- Binds what stands below a node and returns the watchers in document order; `none` if the walk
never ends. -/
def bind (w : World) (data : ObjectId) (root : NodeId) : Option (World × List SubscriberId) :=
  bindWithin data w.walkBound w root

end DataBinding.World
