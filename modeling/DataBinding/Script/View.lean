import DataBinding.Options.Reader
import DataBinding.Script.Expr
import DataBinding.Script.Show

/-!
Operations on binders and view models.
-/
namespace DataBinding.Script

/-- The options of a mount, as a script gives them. -/
inductive MountSource where
  /-- Options as one text. -/
  | text (options : String)
  /-- A selector, and the data as a text. -/
  | parts (element data : String)

/-- An operation on binders and view models, which are given by their names. -/
inductive ViewOp where
  | newBinder (name o : String)
  | bind (b n : String)
  | describeBinder (b : String)
  /-- Gives up a binder and names the bundle of its watchers. -/
  | detach (b name : String)
  | newViewModel (name n : String) (v : Expr)
  | mount (name document : String) (source : MountSource)
  | get (vm key : String)
  | set (vm key : String) (v : Expr)
  | info (vm : String)
  | element (vm name : String)
  | data (vm name : String)
  | describe (vm : String)

/-- The options that a source gives. -/
def MountSource.options : MountSource → Script Options
  | .text options =>
    match Options.parse options with
    | .ok parsed => return parsed
    | .error e => fail (.mount (.options e))
  | .parts element data => return ⟨element, ← document data⟩

/-- The binder with a name. -/
def binderRecord (name : String) : Script Binder := do
  let b ← binder name
  return ((← world).binder? b).getD default

/-- The view model with a name. -/
def viewModelRecord (name : String) : Script ViewModel := do
  let v ← viewModel name
  return ((← world).viewModel? v).getD default

/-- Names a mounted view model and tells the number of its watchers. -/
def mounted (name : String) : Reply → Script Answer
  | .viewModel v => do
    nameViewModel name v
    return .count (((← world).viewModel? v).getD default).watchers.length
  | .refused e => fail (.mount e)
  | _ => return .null

/-- The result of an operation on binders or view models in a callback that was given `argument`. -/
def ViewOp.script (argument : Value) : ViewOp → Script Answer
  | .newBinder name o => do
    let o ← object o
    match ← act (.newBinder o) with
    | .binder b => do
      nameBinder name b
      return .null
    | _ => return .null
  | .bind b n => do
    let id ← binder b
    let n ← Script.node n
    let _ ← act (.bind id n)
    watcherListNow (← binderRecord b).watchers
  | .describeBinder b => do
    let record ← binderRecord b
    return .text ((← world).describeBinder record)
  | .detach b name => do
    let id ← binder b
    match ← act (.detach id) with
    | .bundle bundle => do
      change fun s => { s with binders := s.binders.erase b }
      nameBundle name bundle
      watcherListNow (((← world).bundle? bundle).getD [])
    | _ => return .null
  | .newViewModel name n v => do
    let n ← Script.node n
    let v ← v.eval argument
    mounted name (← act (.mount n v))
  | .mount name document source => do
    let options ← source.options
    let n ← Script.node document
    mounted name (← act (.mountOptions options n))
  | .get vm key => do
    let record ← viewModelRecord vm
    match ← act (.read record.data key) with
    | .value v => showNow v
    | _ => return .null
  | .set vm key v => do
    let id ← viewModel vm
    let v ← v.eval argument
    let _ ← call (.assign id key v)
    return .null
  | .info vm => do
    let record ← viewModelRecord vm
    return .record [
      ("el", ← labelNow record.element),
      ("data", .dump ((← session).dump (← world) 1 record.data)),
      ("watchers", ← watcherListNow record.watchers)]
  | .element vm name => do
    let record ← viewModelRecord vm
    let label ← labelNow record.element
    nameNode name record.element
    return label
  | .data vm name => do
    let record ← viewModelRecord vm
    nameObject name record.data
    return .null
  | .describe vm => do
    let record ← viewModelRecord vm
    return .text ((← world).describeViewModel record)

end DataBinding.Script
