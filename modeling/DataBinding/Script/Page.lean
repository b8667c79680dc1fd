import DataBinding.Script.Session
import DataBinding.Script.Show

/-!
Operations on nodes.
-/
namespace DataBinding.Script

/-- A page as a script writes it down. -/
inductive Template where
  | text (content : String)
  /-- The node with a name. -/
  | named (name : String)
  | element (tag : String) (attributes : List (String × String)) (children : List Template)
    (name : Option String)

instance : Inhabited Template := ⟨.text ""⟩

/-- An operation on nodes, which are given by their names; a last optional name is given to the
result. -/
inductive PageOp where
  | tree (name : String) (t : Template)
  /-- A node inside a number of elements, one in the other. -/
  | chain (name leaf tag : String) (count : Nat)
  | append (n child : String)
  | child (n : String) (i : Nat) (name : Option String)
  | info (n : String)
  | describe (n : String)
  | same (a b : String)
  | textContent (n : String)
  | setText (n content : String)
  | attribute? (n name : String)
  | setAttribute (n name value : String)
  | control (n : String)
  | setControl (n value : String)
  | input (n value : String)
  | dispatch (n : String)
  | byId (n id : String) (name : Option String)
  | query (n selector : String) (name : Option String)
  | outer (n : String)
  | inner (n : String)

/-- Sets attributes in order. -/
def setAttributes (n : NodeId) : List (String × String) → Script Unit
  | [] => return ()
  | (name, value) :: rest => do
    let _ ← act (.setAttribute n name value)
    setAttributes n rest

mutual

/-- The node that a template describes. -/
def Template.build : Template → Script NodeId
  | .text content => newNode (.newText content)
  | .named name => node name
  | .element tag attributes children name => do
    let n ← newNode (.newElement tag)
    setAttributes n attributes
    buildChildren n children
    naming name (nameNode · n)
    return n

/-- Puts the nodes that templates describe below an element. -/
def buildChildren (n : NodeId) : List Template → Script Unit
  | [] => return ()
  | t :: rest => do
    let child ← t.build
    let _ ← act (.appendChild n child)
    buildChildren n rest

end

/-- A node inside `count` elements. -/
def wrap (tag : String) : Nat → NodeId → Script NodeId
  | 0, n => return n
  | count + 1, n => do
    let outer ← newNode (.newElement tag)
    let _ ← act (.appendChild outer n)
    wrap tag count outer

/-- The label of a found node, which is then named. -/
def found (name : Option String) : Option NodeId → Script Answer
  | none => return .null
  | some n => do
    let label ← labelNow n
    naming name (nameNode · n)
    return label

/-- The label of the node that a search has found; one that never ends breaks the step off. -/
def searched (name : Option String) : Option (Option NodeId) → Script Answer
  | none => fail (.failure .endless)
  | some n => found name n

/-- What is told about a node. -/
def nodeReport (s : Session) (w : World) (n : NodeId) : Answer :=
  let element := w.element? n
  .record [
    ("type", .count (if element.isSome then 1 else 3)),
    ("is_text", .bool element.isNone),
    ("is_element", .bool element.isSome),
    ("tag", .optional (fun e => .text e.tag) element),
    ("has_kids", .bool !(w.children n).isEmpty),
    ("kids", .texts ((w.children n).map (s.label w))),
    ("attrs", .list ((w.attributes n).map fun a => .texts [a.name, a.value])),
    ("value", .text (w.controlValue n)),
    ("text", .text (w.textContent n)),
    ("listeners", .count (w.listeners n).length)]

/-- Sends a request and tells nothing. -/
def silently (r : Request (Program Session)) : Script Answer := do
  let _ ← call r
  return .null

/-- The result of an operation on nodes. -/
def PageOp.script : PageOp → Script Answer
  | .tree name t => do
    nameNode name (← t.build)
    return .null
  | .chain name leaf tag count => do
    nameNode name (← wrap tag count (← node leaf))
    return .null
  | .append n kid => do
    let n ← node n
    let kid ← node kid
    silently (.act (.appendChild n kid))
  | .child n i name => do
    let n ← node n
    found name ((← world).children n)[i]?
  | .info n => do
    let n ← node n
    return nodeReport (← session) (← world) n
  | .describe n => do
    let n ← node n
    return .text ((← world).describeNode n)
  | .same a b => do
    let a ← node a
    let b ← node b
    return .bool (a == b)
  | .textContent n => do
    let n ← node n
    return .text ((← world).textContent n)
  | .setText n content => do silently (.act (.setText (← node n) content))
  | .attribute? n name => do
    let n ← node n
    return .optional .text (((← world).element? n).bind (·.attribute? name))
  | .setAttribute n name value => do silently (.act (.setAttribute (← node n) name value))
  | .control n => do
    let n ← node n
    return .text ((← world).controlValue n)
  | .setControl n value => do silently (.act (.setControlValue (← node n) value))
  | .input n value => do silently (.input (← node n) value)
  | .dispatch n => do
    let n ← node n
    let _ ← call (.dispatch n)
    return .text "input"
  | .byId n id name => do
    let n ← node n
    searched name ((← world).find n (.id id))
  | .query n selector name => do
    let n ← node n
    searched name ((← world).query n selector)
  | .outer n => do
    let n ← node n
    return .text ((← world).outerMarkup n)
  | .inner n => do
    let n ← node n
    return .text ((← world).innerMarkup n)

end DataBinding.Script
