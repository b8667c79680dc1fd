import DataBinding.Value

/-!
Subscribers: what is told when a property has changed. A watcher reads one property and reacts when
its value is no longer the one it read last.
-/
namespace DataBinding

/-- What a watcher does with a new value. -/
inductive Reaction where
  /-- Runs a callback of the host program. -/
  | callback (c : CallbackId)
  /-- Makes a node show the value as its text. -/
  | showText (node : NodeId)
  /-- Makes a form control hold the value. -/
  | showValue (node : NodeId)
  deriving DecidableEq, Inhabited

/-- A watcher of one property. -/
structure Watcher where
  root : ObjectId
  key : String
  /-- The value that it read last. -/
  cached : Value
  reaction : Reaction
  deriving DecidableEq, Inhabited

/-- Something that is told about changes. -/
inductive Subscriber where
  | watcher (w : Watcher)
  /-- A callback of the host program, run at every change. -/
  | host (callback : CallbackId)
  deriving DecidableEq, Inhabited

namespace Subscriber

def watcher? : Subscriber → Option Watcher
  | .watcher w => some w
  | .host _ => none

/-- Remembers a value as the last one read. -/
def remember (value : Value) : Subscriber → Subscriber
  | .watcher w => .watcher { w with cached := value }
  | .host c => .host c

end Subscriber
end DataBinding
