import DataBinding.Machine
import DataBinding.World.Description

/-!
Answers of a script: what its steps report. Values are shown by the names that the script gave to
objects, to a chosen depth also by their properties.
-/
namespace DataBinding.Script

/-- A value as a report shows it. -/
inductive Shown where
  | undefined
  | null
  | bool (b : Bool)
  | number (text : String)
  | string (s : String)
  /-- An object by its name. -/
  | named (name : String)
  /-- An object without a name. -/
  | object
  /-- An object by its properties: key, value, and the number of entries in the dependency list of a
  tracked property. -/
  | slots (entries : List (String × Shown × Option Nat))
  deriving Inhabited

/-- The properties of an object as a report shows them. -/
abbrev Dump := List (String × Shown × Option Nat)

/-- The kinds of things that a script names. -/
inductive Kind where
  | object
  | node
  | dep
  | subscriber
  | watcher
  | bundle
  | binder
  | viewModel
  deriving DecidableEq, Inhabited

def Kind.word : Kind → String
  | .object => "obj"
  | .node => "node"
  | .dep => "dep"
  | .subscriber => "sub"
  | .watcher => "watcher"
  | .bundle => "bundle"
  | .binder => "compiler"
  | .viewModel => "vm"

/-- Why an operation of a script has no result. -/
inductive ScriptError where
  /-- A name that stands for nothing of the kind that is needed. -/
  | unnamed (kind : Kind) (name : String)
  | mount (e : MountError)
  | failure (f : Failure)
  /-- The bound on the number of steps was reached. -/
  | unfinished
  deriving DecidableEq

/-- The message of an error, where it has one. -/
def ScriptError.message? : ScriptError → Option String
  | .unnamed kind name => some ("no such " ++ kind.word ++ ": " ++ name)
  | .mount e => e.message?
  | .failure (.panic message) => some message
  | .failure .endless => some "the page stands below itself"
  | .unfinished => some "too many steps"

/-- The result of an operation. -/
inductive Answer where
  | null
  | bool (b : Bool)
  | count (n : Nat)
  | text (s : String)
  | shown (v : Shown)
  | dump (d : Dump)
  | list (items : List Answer)
  | record (fields : List (String × Answer))
  | error (e : ScriptError)

instance : Inhabited Answer := ⟨.null⟩

namespace Answer

def texts (items : List String) : Answer := .list (items.map .text)

def bools (items : List Bool) : Answer := .list (items.map .bool)

def optional {α : Type} (f : α → Answer) : Option α → Answer
  | none => .null
  | some x => f x

end Answer

/-- What a script records when a callback runs. -/
inductive Event where
  | watcher (name : String) (v : Shown)
  | subscriber (name : String)
  | listener (tag value : String)
  /-- The result of one operation of a callback. -/
  | did (a : Answer)

instance : Inhabited Event := ⟨.did .null⟩

end DataBinding.Script
