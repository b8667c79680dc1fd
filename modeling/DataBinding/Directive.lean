/-!
Directives: the attributes that bind an element to a property. Their names start with `v-`, and the
value of the attribute is the key of the property.
-/
namespace DataBinding

/-- The known directives. -/
inductive Directive where
  /-- The element shows the property as its text. -/
  | text
  /-- The form control holds the property and writes it back when edited. -/
  | model
  deriving DecidableEq, Inhabited

namespace Directive

/-- What the attribute names of directives start with. -/
def marker : String := "v-"

/-- The name of the directive that an attribute names, known or not. -/
def nameOf? (attributeName : String) : Option String :=
  if marker.toList.isPrefixOf attributeName.toList then
    some (String.ofList (attributeName.toList.drop marker.length))
  else none

def name : Directive → String
  | .text => "text"
  | .model => "model"

/-- The directive with a name. -/
def ofName? (name : String) : Option Directive :=
  if name = "text" then some .text
  else if name = "model" then some .model
  else none

/-- The directive that an attribute names, if it is a known one. -/
def ofAttribute? (attributeName : String) : Option Directive :=
  (nameOf? attributeName).bind ofName?

/-- The attribute name of a directive. -/
def attributeName (d : Directive) : String := marker ++ d.name

end Directive
end DataBinding
