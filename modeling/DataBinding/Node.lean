import DataBinding.Reference

/-!
Nodes of a page: texts and elements. A node is shared by reference, so the same node may stand below
several parents, and whoever holds it sees every change.
-/
namespace DataBinding

/-- An attribute of an element. -/
structure Attribute where
  name : String
  value : String
  deriving DecidableEq, Inhabited

/-- What runs when the value of a form control has been edited. -/
inductive Listener where
  /-- A callback of the host program. -/
  | host (callback : CallbackId)
  /-- Stores the control's value in a property. -/
  | writeBack (data : ObjectId) (key : String)
  deriving DecidableEq, Inhabited

/-- An element. -/
structure Element where
  tag : String
  /-- In the order in which their names were first set. -/
  attributes : List Attribute := []
  /-- What a form control holds; no attribute shows it. -/
  value : String := ""
  children : List NodeId := []
  listeners : List Listener := []
  deriving DecidableEq, Inhabited

namespace Element

/-- The value of an attribute. -/
def attribute? (e : Element) (name : String) : Option String :=
  (e.attributes.find? (·.name == name)).map (·.value)

/-- Gives an attribute a value; a new one comes last. -/
def setAttribute (e : Element) (name value : String) : Element :=
  if e.attributes.any (·.name == name) then
    { e with attributes := e.attributes.map fun a => if a.name == name then ⟨name, value⟩ else a }
  else { e with attributes := e.attributes ++ [⟨name, value⟩] }

end Element

/-- A node. -/
inductive Node where
  | text (content : String)
  | element (e : Element)
  deriving DecidableEq, Inhabited

namespace Node

def element? : Node → Option Element
  | .text _ => none
  | .element e => some e

/-- The children of a node; a text has none. -/
def children : Node → List NodeId
  | .text _ => []
  | .element e => e.children

/-- What a form control holds; a text holds nothing. -/
def value : Node → String
  | .text _ => ""
  | .element e => e.value

def listeners : Node → List Listener
  | .text _ => []
  | .element e => e.listeners

def attributes : Node → List Attribute
  | .text _ => []
  | .element e => e.attributes

/-- Changes an element and leaves a text as it is. -/
def onElement (f : Element → Element) : Node → Node
  | .text s => .text s
  | .element e => .element (f e)

end Node
end DataBinding
