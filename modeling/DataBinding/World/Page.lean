import DataBinding.Text
import DataBinding.World

/-!
Pages: changing nodes, and reading all that stands below one of them. A node is read through its
`Tree`, the value that the nodes below it make up; a node that stands below itself has none.
-/
namespace DataBinding

/-- A node with all that stands below it. -/
inductive Tree where
  | text (content : String)
  | element (tag : String) (attributes : List Attribute) (children : List Tree)
  deriving Inhabited

namespace Tree

mutual

/-- The texts below a node, one after the other. -/
def content : Tree → List Char
  | .text s => s.toList
  | .element _ _ children => contents children

def contents : List Tree → List Char
  | [] => []
  | t :: rest => t.content ++ contents rest

end

/-- An attribute as it stands in a tag. -/
def attributeMarkup (a : Attribute) : List Char :=
  ' ' :: a.name.toList ++ ['=', '"'] ++ (Text.escapeAttribute a.value).toList ++ ['"']

mutual

/-- The markup of a tree. Every element has both its tags. -/
def markup : Tree → List Char
  | .text s => (Text.escapeData s).toList
  | .element tag attributes children =>
    '<' :: tag.toList ++ attributes.flatMap attributeMarkup ++ ['>'] ++ markups children ++
      ['<', '/'] ++ tag.toList ++ ['>']

def markups : List Tree → List Char
  | [] => []
  | t :: rest => t.markup ++ markups rest

end

/-- The children of the root. -/
def children : Tree → List Tree
  | .text _ => []
  | .element _ _ children => children

end Tree

namespace World

/-- The children of a node. -/
def children (w : World) (n : NodeId) : List NodeId := ((w.node? n).map (·.children)).getD []

/-- What a form control holds. -/
def controlValue (w : World) (n : NodeId) : String := ((w.node? n).map (·.value)).getD ""

/-- The attributes of a node. -/
def attributes (w : World) (n : NodeId) : List Attribute :=
  ((w.node? n).map (·.attributes)).getD []

/-- The listeners of a node, in the order in which they were added. -/
def listeners (w : World) (n : NodeId) : List Listener := ((w.node? n).map (·.listeners)).getD []

/-- Puts a node last below an element. -/
def appendChild (w : World) (n child : NodeId) : World :=
  w.modifyNode n (·.onElement fun e => { e with children := e.children ++ [child] })

/-- Gives an element an attribute. -/
def setAttribute (w : World) (n : NodeId) (name value : String) : World :=
  w.modifyNode n (·.onElement (·.setAttribute name value))

/-- Makes a form control hold a text. -/
def setControlValue (w : World) (n : NodeId) (value : String) : World :=
  w.modifyNode n (·.onElement fun e => { e with value := value })

/-- Adds a listener to an element. -/
def listen (w : World) (n : NodeId) (listener : Listener) : World :=
  w.modifyNode n (·.onElement fun e => { e with listeners := e.listeners ++ [listener] })

/-- Replaces the text of a node. An element loses all its children; unless the text is empty, a new
text node takes their place. -/
def setText (w : World) (n : NodeId) (content : String) : World :=
  match w.node? n with
  | none => w
  | some (.text _) => w.modifyNode n fun _ => .text content
  | some (.element _) =>
    if content = "" then w.modifyNode n (·.onElement fun e => { e with children := [] })
    else
      let (w, child) := w.newNode (.text content)
      w.modifyNode n (·.onElement fun e => { e with children := [child] })

/-- What a watcher's reaction does to the page; a callback is left to the host program. -/
def react (w : World) (reaction : Reaction) (value : Value) : World :=
  match reaction with
  | .callback _ => w
  | .showText n => w.setText n value.textContent
  | .showValue n => w.setControlValue n value.formValue

/-- The tree of a node that has at most `depth` levels. -/
def treeWithin (w : World) : Nat → NodeId → Option Tree
  | 0, _ => none
  | depth + 1, n =>
    match w.node? n with
    | none => none
    | some (.text s) => some (.text s)
    | some (.element e) =>
      (e.children.mapM (w.treeWithin depth)).map (.element e.tag e.attributes ·)

/-- The tree of a node. As no way down through different nodes is longer than their number, a node
has no tree only if it can be reached from below itself. -/
def tree? (w : World) (n : NodeId) : Option Tree := w.treeWithin (w.nodes.size + 1) n

/-- The text of a node: its own, or all texts below it. -/
def textContent (w : World) (n : NodeId) : String :=
  String.ofList (((w.tree? n).map (·.content)).getD [])

/-- The markup of a node. -/
def outerMarkup (w : World) (n : NodeId) : String :=
  String.ofList (((w.tree? n).map (·.markup)).getD [])

/-- The markup of what stands below a node. -/
def innerMarkup (w : World) (n : NodeId) : String :=
  String.ofList (((w.tree? n).map fun t => Tree.markups t.children).getD [])

end World
end DataBinding
