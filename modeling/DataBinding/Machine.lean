import DataBinding.Machine.Program

/-!
The machine that runs a host program on a world. Calls that run callbacks are frames on a stack, so
that every moment of a run is a value: who is being told of a change at each level, who is still to
be told, and which subscribers are kept alive only by that. One step does what is due on the top frame.
-/
namespace DataBinding

/-- A call in progress. -/
inductive Frame (σ : Type) where
  /-- A program with what is left of it to do. -/
  | program (p : Program σ)
  /-- Telling subscribers of a change: all that were alive when it began, which stay alive until it
  ends, and those of them that are still to be told. -/
  | notifying (told rest : List SubscriberId)
  /-- Running the listeners that a node had when it began: those still to be run. -/
  | dispatching (n : NodeId) (rest : List Listener)
  /-- A scope with an entry of its own on the stack of collecting subscribers, which it takes off when
  it ends. -/
  | scope
  /-- Keeping subscribers alive. -/
  | keeping (kept : List SubscriberId)

/-- Whether a call in progress keeps a subscriber alive. -/
def Frame.keeps {σ : Type} (s : SubscriberId) : Frame σ → Bool
  | .program _ => false
  | .notifying told _ => told.contains s
  | .dispatching _ _ => false
  | .scope => false
  | .keeping kept => kept.contains s

/-- Why a run was broken off. -/
inductive Failure where
  | panic (message : String)
  /-- A page was to be bound or searched that stands below itself. -/
  | endless
  deriving DecidableEq

/-- A host program at a moment of its run. -/
structure Machine (σ : Type) where
  world : World := {}
  /-- The callbacks that were handed over so far. -/
  callbacks : Arena (Value → Program σ) := .empty
  host : σ
  /-- The calls in progress, the innermost first. -/
  frames : List (Frame σ) := []
  failure : Option Failure := none

namespace Machine

variable {σ : Type}

/-- Whether anything holds a subscriber. Dependency lists do not. -/
def alive (m : Machine σ) (s : SubscriberId) : Bool :=
  m.world.holds s || m.frames.any (·.keeps s)

/-- Begins a call. -/
def push (m : Machine σ) (f : Frame σ) : Machine σ := { m with frames := f :: m.frames }

/-- Runs a callback. -/
def invoke (m : Machine σ) (c : CallbackId) (v : Value) : Machine σ :=
  match m.callbacks.get? c.index with
  | none => m
  | some callback => m.push (.program (callback v))

/-- Hands over a callback. -/
def addCallback (m : Machine σ) (callback : Value → Program σ) : Machine σ × CallbackId :=
  ({ m with callbacks := m.callbacks.push callback }, ⟨m.callbacks.size⟩)

/-- Begins to tell the subscribers in a dependency list: those that are gone are taken off the list,
the others will be told in order. -/
def notify (m : Machine σ) (d : DepId) : Machine σ :=
  let live := (m.world.entries d).filter m.alive
  let world := { m.world with deps := m.world.deps.modify d.index fun _ => live }
  { m with world := world }.push (.notifying live live)

/-- Stores a value and begins to tell the subscribers if that changed a tracked property. -/
def write (m : Machine σ) (o : ObjectId) (key : String) (v : Value) : Machine σ :=
  match m.world.write o key v with
  | (world, none) => { m with world := world }
  | (world, some d) => { m with world := world }.notify d

/-- Tells one subscriber of a change. -/
def update (m : Machine σ) (s : SubscriberId) : Machine σ :=
  match m.world.subscriber? s with
  | none => m
  | some (.host c) => m.invoke c .undefined
  | some (.watcher watcher) =>
    match m.world.refresh s watcher with
    | (world, none) => { m with world := world }
    | (world, some v) =>
      match watcher.reaction with
      | .callback c => { m with world := world }.invoke c v
      | reaction => { m with world := world.react reaction v }

/-- Runs one listener of a node. -/
def trigger (m : Machine σ) (n : NodeId) : Listener → Machine σ
  | .host c => m.invoke c (.string (m.world.controlValue n))
  | .writeBack data key => m.write data key (.string (m.world.controlValue n))

/-- Begins to run the listeners of a node. -/
def dispatch (m : Machine σ) (n : NodeId) : Machine σ :=
  m.push (.dispatching n (m.world.listeners n))

/-- Runs a program in a scope with an entry of its own on the stack of collecting subscribers. -/
def within (m : Machine σ) (entry : Option SubscriberId) (body : Program σ) : Machine σ :=
  { m.push .scope with world := m.world.enter entry }.push (.program body)

/-- Breaks off all calls in progress. Nothing is undone, except that scopes take their entries off the
stack of collecting subscribers; what the host keeps there stays. -/
def breakOff (m : Machine σ) (why : Failure) : Machine σ :=
  let world := m.frames.foldl (fun w f => match f with | .scope => w.leave | _ => w) m.world
  { m with world := world, frames := [], failure := some why }

/-- Begins to carry out a request; the program goes on with `next` when it is done. -/
def request (m : Machine σ) (next : Reply → Program σ) : Request (Program σ) → Machine σ
  | .act a =>
    match m.world.perform a with
    | none => m.breakOff .endless
    | some (world, reply) => { m with world := world }.push (.program (next reply))
  | .subscribe callback =>
    let (m, c) := m.addCallback callback
    let (world, s) := m.world.newSubscriber (.host c)
    { m with world := world.hold s }.push (.program (next (.subscriber s)))
  | .watch root key callback =>
    let (m, c) := m.addCallback callback
    let (world, s) := m.world.watch root key (.callback c)
    { m with world := world.hold s }.push (.program (next (.subscriber s)))
  | .listen n callback =>
    let (m, c) := m.addCallback callback
    { m with world := m.world.listen n (.host c) }.push (.program (next .done))
  | .register d s =>
    if m.alive s then
      { m with world := m.world.register d s }.push (.program (next .done))
    else m.push (.program (next .missing))
  | .enter s =>
    if m.alive s then
      { m with world := m.world.enter (some s) }.push (.program (next .done))
    else m.push (.program (next .missing))
  | .write o key v => (m.push (.program (next .done))).write o key v
  | .assign vm key v =>
    match m.world.viewModel? vm with
    | none => m.push (.program (next .missing))
    | some view =>
      ((m.push (.program (next .done))).push (.keeping view.watchers)).write view.data key v
  | .notify d => (m.push (.program (next .done))).notify d
  | .update s =>
    if m.alive s then ((m.push (.program (next .done))).push (.keeping [s])).update s
    else m.push (.program (next .missing))
  | .dispatch n => (m.push (.program (next .done))).dispatch n
  | .input n text =>
    let world := m.world.setControlValue n text
    ({ m with world := world }.push (.program (next .done))).dispatch n
  | .collecting s body =>
    if m.alive s then (m.push (.program (next .done))).within (some s) body
    else m.push (.program (next .missing))
  | .untracked body => (m.push (.program (next .done))).within none body
  | .panic message => m.breakOff (.panic message)

/-- Does what is due on the top frame. A machine without frames stays as it is. -/
def step (m : Machine σ) : Machine σ :=
  match m.frames with
  | [] => m
  | frame :: below =>
    let rest := { m with frames := below }
    match frame with
    | .program .done => rest
    | .program (.look next) => rest.push (.program (next m.host m.world))
    | .program (.keep change next) =>
      { rest with host := change m.host }.push (.program next)
    | .program (.call r next) => rest.request next r
    | .notifying _ [] => rest
    | .notifying told (s :: untold) => (rest.push (.notifying told untold)).update s
    | .dispatching _ [] => rest
    | .dispatching n (l :: more) => (rest.push (.dispatching n more)).trigger n l
    | .scope => { rest with world := m.world.leave }
    | .keeping _ => rest

/-- Whether no call is in progress. -/
def idle (m : Machine σ) : Bool := m.frames.isEmpty

/-- The machine after at most `steps` steps. It has come to its end if it is then idle. -/
def run : Nat → Machine σ → Machine σ
  | 0, m => m
  | steps + 1, m => if m.idle then m else run steps m.step

/-- The machine about to run a program with nothing else in progress. -/
def start (m : Machine σ) (p : Program σ) : Machine σ :=
  { m with frames := [.program p], failure := none }

end Machine
end DataBinding
