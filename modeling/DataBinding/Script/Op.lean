import DataBinding.Script.Data
import DataBinding.Script.Inquiry
import DataBinding.Script.Page
import DataBinding.Script.View

/-!
Operations of a script, with those that hand over callbacks. A callback is a list of operations; it
may be limited to a number of runs.
-/
namespace DataBinding.Script

/-- An operation. -/
inductive Op where
  | inquire (q : Inquiry)
  | data (op : DataOp)
  | page (op : PageOp)
  | view (op : ViewOp)
  | subscribe (name : String) (actions : List Op) (limit : Option Nat)
  | watch (name o key : String) (actions : List Op) (limit : Option Nat)
  | listen (n tag : String) (actions : List Op) (limit : Option Nat)
  /-- Operations while no subscriber collects. -/
  | untracked (actions : List Op)
  | drop (kind : Kind) (name : String)
  | panic (message : String)

instance : Inhabited Op := ⟨.panic ""⟩

/-- Records an event of this step. -/
def Session.record (s : Session) (e : Event) : Session := { s with log := e :: s.log }

/-- Records the result of an operation of a callback. -/
def Session.did (a : Answer) (s : Session) : Session := s.record (.did a)

/-- Collects the result of an operation inside `untracked`. -/
def Session.collect (a : Answer) (s : Session) : Session :=
  match s.collected with
  | [] => s
  | results :: outer => { s with collected := (a :: results) :: outer }

/-- A count of runs for a new callback. -/
def newCounter : Script Nat := do
  let counter := (← session).started.size
  change fun s => { s with started := s.started.push 0 }
  return counter

/-- A run of a callback: it records its event, and then does what it has to do, unless as many runs
as it is limited to have started before. -/
def fire (event : Session → Event) (counter : Nat) (limit : Option Nat)
    (body : Program Session) : Program Session :=
  .keep (fun s => s.record (event s)) <| .look fun s _ =>
    let runs := (s.started.get? counter).getD 0
    if limit.all (runs < ·) then
      .keep (fun s => { s with started := s.started.modify counter (· + 1) }) body
    else .done

mutual

/-- The result of an operation in a callback that was given `argument`. -/
def Op.script (argument : Value) : Op → Script Answer
  | .inquire q => q.script argument
  | .data op => op.script argument
  | .page op => op.script
  | .view op => op.script argument
  | .subscribe name actions limit => do
    let counter ← newCounter
    match ← call (.subscribe fun v =>
        fire (fun _ => .subscriber name) counter limit (runEach v Session.did actions)) with
    | .subscriber s => do
      nameSubscriber name s
      return .null
    | _ => return .null
  | .watch name o key actions limit => do
    let o ← object o
    let counter ← newCounter
    match ← call (.watch o key fun v =>
        fire (fun s => .watcher name (s.showFlat v)) counter limit
          (runEach v Session.did actions)) with
    | .subscriber s => do
      nameWatcher name s
      showNow (((← world).watcher? s).getD default).cached
    | _ => return .null
  | .listen n tag actions limit => do
    let n ← Script.node n
    let counter ← newCounter
    let _ ← call (.listen n fun v =>
      fire (fun _ => .listener tag v.formValue) counter limit (runEach v Session.did actions))
    return .null
  | .untracked actions => do
    change fun s => { s with collected := [] :: s.collected }
    let _ ← call (.untracked (runEach argument Session.collect actions))
    let results := (← session).collected.headD []
    change fun s => { s with collected := s.collected.tail }
    return .list results.reverse
  | .drop kind name => return .bool (← Script.drop kind name)
  | .panic message => do
    let _ ← call (.panic message)
    return .null

/-- Carries out operations in order and keeps each result. An operation without a result does not
keep the next ones from being carried out. -/
def runEach (argument : Value) (keep : Answer → Session → Session) : List Op → Program Session
  | [] => .done
  | op :: rest =>
    program (op.script argument) fun answer =>
      .keep (keep answer) (runEach argument keep rest)

end

end DataBinding.Script
