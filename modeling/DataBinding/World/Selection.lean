import DataBinding.Text
import DataBinding.World.Page

/-!
Finding elements below a node. A selector names an element by its `id` attribute or by its tag; of
several elements the first in document order is found, an element before those below it.
-/
namespace DataBinding

/-- What an element is looked up by. -/
inductive Selector where
  | id (value : String)
  | tag (name : String)
  deriving DecidableEq, Inhabited

namespace Selector

/-- The selector that a text stands for, apart from white space at its ends: `#` and an id, or a
tag. A blank text is none. -/
def parse? (text : String) : Option Selector :=
  match Text.trim text.toList with
  | [] => none
  | '#' :: value => some (.id (String.ofList value))
  | name => some (.tag (String.ofList name))

/-- Whether two names agree, letters of the ASCII alphabet in either case. -/
def agree (a b : String) : Bool := a.toList.map Char.toLower == b.toList.map Char.toLower

/-- Whether a selector means an element. -/
def accepts : Selector → Element → Bool
  | .id value, e => e.attribute? "id" == some value
  | .tag name, e => agree e.tag name

end Selector

namespace World

/-- The first element below a node that passes a test, if there is one at most `depth` levels down;
`none` if the search reaches deeper before it has found any. -/
def findWithin (w : World) (test : Element → Bool) : Nat → NodeId → Option (Option NodeId)
  | 0, _ => none
  | depth + 1, n =>
    (w.children n).findSomeM? fun child =>
      match w.element? child with
      | none => some none
      | some e => if test e then some (some child) else w.findWithin test depth child

/-- The first element below a node, in document order, that a selector means; `none` if the search
never ends. As no way down through different nodes is longer than their number, a search that reaches
deeper has come back to a node, and comes back to it again and again. -/
def find (w : World) (n : NodeId) (selector : Selector) : Option (Option NodeId) :=
  w.findWithin selector.accepts (w.nodes.size + 1) n

/-- The first element below a node that the text of a selector means. -/
def query (w : World) (n : NodeId) (selector : String) : Option (Option NodeId) :=
  match Selector.parse? selector with
  | none => some none
  | some selector => w.find n selector

end World
end DataBinding
