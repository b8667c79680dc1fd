import DataBinding.Script.Expr
import DataBinding.Script.Show

/-!
Operations on objects, dependency lists and subscribers.
-/
namespace DataBinding.Script

/-- An operation on data. Objects, lists and subscribers are given by their names; a last optional
name is given to the result. -/
inductive DataOp where
  | newObject (name : String) (entries : List (String × Expr))
  | bind (name : String) (v : Expr)
  | get (o key : String) (name : Option String)
  | set (o key : String) (v : Expr)
  | has (o key : String)
  | keys (o : String)
  | size (o : String)
  | tracked (o key : String)
  | depOf (o key : String) (name : Option String)
  | sameObject (a b : String)
  | observe (v : Expr)
  | observeObject (o : String)
  | dump (o : String) (depth : Nat)
  | newDep (name : String)
  | entryCount (d : String)
  | sameDep (a b : String)
  | describeDep (d : String)
  | register (d s : String)
  | depend (d : String)
  | notify (d : String)
  | update (s : String)
  /-- Makes a subscriber the collecting one, until it is popped. -/
  | push (s : String)
  | pop
  /-- The collecting subscriber and the height of the stack. -/
  | target
  | watcherInfo (w : String)
  | describeWatcher (w : String)

/-- Sends a request whose reply tells nothing. -/
def command (r : Request (Program Session)) : Script Answer := do
  let _ ← call r
  return .null

/-- The properties of the object with a name. -/
def propertiesOf (name : String) : Script Properties := do
  let o ← object name
  return (← world).properties o

/-- The entries of a dependency list. -/
def entryCount (d : DepId) : Script Answer := do
  return .count ((← world).entries d).length

/-- The result of an operation on data in a callback that was given `argument`. -/
def DataOp.script (argument : Value) : DataOp → Script Answer
  | .newObject name entries => do
    let entries ← evalEntries argument entries
    nameObject name (← Script.newObject entries)
    return .null
  | .bind name v => do
    let v ← v.eval argument
    nameValue (some name) v
    showNow v
  | .get o key name => do
    let o ← object o
    match ← act (.read o key) with
    | .value v => do
      nameValue name v
      showNow v
    | _ => return .null
  | .set o key v => do
    let o ← object o
    let v ← v.eval argument
    command (.write o key v)
  | .has o key => return .bool ((← propertiesOf o).contains key)
  | .keys o => return .texts (← propertiesOf o).keys
  | .size o => do
    let p ← propertiesOf o
    return .list [.count p.size, .bool p.slots.isEmpty]
  | .tracked o key => return .bool ((← propertiesOf o).dep? key).isSome
  | .depOf o key name => do
    match (← propertiesOf o).dep? key with
    | none => return .null
    | some d => do
      naming name (nameDep · d)
      Script.entryCount d
  | .sameObject a b => do
    let a ← object a
    let b ← object b
    return .bool (a == b)
  | .observe v => do
    let v ← v.eval argument
    command (.act (.observe v))
  | .observeObject o => do
    let o ← object o
    command (.act (.observe (.object o)))
  | .dump o depth => do
    let o ← object o
    return .dump ((← session).dump (← world) depth o)
  | .newDep name => do
    match ← act .newDep with
    | .dep d => do
      nameDep name d
      return .null
    | _ => return .null
  | .entryCount d => do Script.entryCount (← dep d)
  | .sameDep a b => do
    let a ← dep a
    let b ← dep b
    return .bools [a == b, a == b]
  | .describeDep d => do
    let d ← dep d
    let entries := ((← world).entries d).length
    return .text (describeParts "Dep" [("id", "N"), ("subscriber_count", Nat.repr entries)] false)
  | .register d s => do
    let d ← dep d
    let s ← subscriber s
    command (.register d s)
  | .depend d => do
    let d ← dep d
    command (.act (.depend d))
  | .notify d => do
    let d ← dep d
    command (.notify d)
  | .update s => do
    let s ← subscriber s
    command (.update s)
  | .push s => do
    let s ← subscriber s
    let _ ← call (.enter s)
    change fun session => { session with guards := session.guards + 1 }
    let depth := (← world).targets.length
    return .text (describeParts "TargetGuard" [("depth", Nat.repr depth)] false)
  | .pop => do
    if (← session).guards = 0 then return .bool false
    else do
      let _ ← act .leave
      change fun session => { session with guards := session.guards - 1 }
      return .bool true
  | .target => do
    let w ← world
    let s ← session
    return .list [.optional (fun id => .text (s.subscriberName id)) w.target?,
      .count w.targets.length]
  | .watcherInfo w => do
    let watcher ← Script.watcher w
    return .list [.text watcher.key, ← showNow watcher.cached, ← showNow (.object watcher.root)]
  | .describeWatcher w => do
    let watcher ← Script.watcher w
    return .text ((← world).describeWatcher watcher)

end DataBinding.Script
