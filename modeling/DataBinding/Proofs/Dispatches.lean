import DataBinding.Proofs.Listeners
import DataBinding.Proofs.Queues

/-! Dispatch by snapshot. A dispatch runs the listeners that the node has when it begins. Listeners
may add others, edit the same control, dispatch again on the same node or write data that changes it:
then several dispatches of one node are in progress at once, each with the list that it found, and
since lists only grow at their end the later one has found all that the earlier one had, and more. -/
namespace DataBinding

/-- A call that runs the listeners of a node, as it is made. -/
structure DispatchCall (σ : Type) where
  /-- The machine that goes on when the call has returned. -/
  caller : Machine σ
  node : NodeId
  /-- What is typed into the node first, if it is edited. -/
  typed : Option String

namespace Machine
open World

variable {σ : Type}

/-- The dispatch that begins with the next step. -/
def dispatching? (m : Machine σ) : Option (DispatchCall σ) :=
  match m.frames with
  | .program (.call (.dispatch n) next) :: below =>
    some ⟨{ m with frames := .program (next .done) :: below }, n, none⟩
  | .program (.call (.input n text) next) :: below =>
    some ⟨{ m with
      world := m.world.setControlValue n text
      frames := .program (next .done) :: below }, n, some text⟩
  | _ => none

/-- The listener that the next step runs for a dispatch which returns to that many frames. -/
def runs? (depth : Nat) (m : Machine σ) : Option Listener :=
  match m.frames with
  | .dispatching _ (l :: _) :: below => if below.length = depth then some l else none
  | _ => none

/-- The next step runs a listener of a node with what the node holds: it calls a callback that was
handed over, or stores that in a property. -/
def Hears (m : Machine σ) (n : NodeId) : Listener → Prop
  | .host c => ∃ callback below, m.callbacks.get? c.index = some callback ∧
      m.step.frames = .program (callback (.string (m.world.controlValue n))) :: below ∧
      m.step.world = m.world
  | .writeBack data key => ∃ call, m.writing? = some call ∧ call.root = data ∧ call.key = key ∧
      call.value = .string (m.world.controlValue n)

section Calling

variable {m : Machine σ}

/-- A dispatch begins with the listeners that the node has, whether or not it is edited. -/
theorem step_of_dispatching (calling : m.dispatching? = some call) :
    m.step = { call.caller with
      frames := .dispatching call.node (m.world.listeners call.node) :: call.caller.frames } ∧
    call.caller.frames ≠ [] := by
  unfold dispatching? at calling
  split at calling
  · rename_i due
    obtain rfl := Option.some.inj calling
    exact ⟨by simp only [step, due]; rfl, List.cons_ne_nil _ _⟩
  · rename_i n text next below due
    obtain rfl := Option.some.inj calling
    have same := (spares_setControlValue m.world n text).listeners (n := n) (by simp)
    refine ⟨?_, List.cons_ne_nil _ _⟩
    simp only [step, due, request, dispatch, push, same]
  · cases calling

private theorem runs?_of_dispatching (calling : m.dispatching? = some call) (depth : Nat) :
    runs? depth m = none := by
  unfold runs?
  split
  · rename_i due
    simp [dispatching?, due] at calling
  · rfl

/-- The text is what the node holds when the first listener is due. -/
private theorem typed_of_dispatching (calling : m.dispatching? = some call)
    (typed : call.typed = some text) (element : m.world.node? call.node = some (.element e)) :
    m.step.world.controlValue call.node = text := by
  rw [(step_of_dispatching calling).1]
  unfold dispatching? at calling
  split at calling
  · obtain rfl := Option.some.inj calling
    cases typed
  · obtain rfl := Option.some.inj calling
    obtain rfl := Option.some.inj typed
    exact controlValue_of_element (node?_setControlValue_element _ element)
  · cases calling

/-- Running a listener begins calls at most. -/
private theorem frames_trigger (m : Machine σ) (n : NodeId) (l : Listener) :
    ∃ begun, (m.trigger n l).frames = begun ++ m.frames := by
  cases l with
  | host c =>
    rcases invoke_cases m c (.string (m.world.controlValue n)) with same | ⟨p, same⟩
    · exact ⟨[], congrArg Machine.frames same⟩
    · exact ⟨[_], congrArg Machine.frames same⟩
  | writeBack data key =>
    rcases write_cases m data key (.string (m.world.controlValue n)) with
      ⟨w, -, -, same⟩ | ⟨slot, d, -, -, -, same⟩
    · exact ⟨[], by rw [trigger, same]; rfl⟩
    · exact ⟨[_], by rw [trigger, same]; rfl⟩

/-- A listener that is due is run. -/
private theorem hears_of_due (due : m.frames = .dispatching n (l :: rest) :: base)
    (handed : ∀ c, l = .host c → ∃ callback, m.callbacks.get? c.index = some callback) :
    m.Hears n l := by
  cases l with
  | host c =>
    obtain ⟨callback, present⟩ := handed c rfl
    refine ⟨callback, .dispatching n rest :: base, present, ?_, ?_⟩ <;>
      simp [step, due, trigger, invoke, push, present]
  | writeBack data key =>
    refine ⟨⟨{ m with frames := .dispatching n rest :: base }, data, key,
      .string (m.world.controlValue n)⟩, ?_, rfl, rfl, rfl⟩
    simp only [writing?, due]

end Calling

/-- A dispatch works through the listeners that it has not run yet. -/
private theorem works_dispatching (n : NodeId) (base : List (Frame σ)) :
    WorksThrough (Frame.dispatching n) base (runs? base.length) where
  ends frames := by simp [step, frames]
  goes {l rest m} frames := by
    obtain ⟨begun, same⟩ := frames_trigger { m with frames := .dispatching n rest :: base } n l
    exact ⟨begun, by rw [← same]; simp only [step, frames]; rfl⟩
  due {rest m} frames := by cases rest <;> simp [runs?, frames]
  waits {first above rest m} frames := by
    unfold runs?
    split
    · rename_i due
      rw [if_neg (length_ne_of_above due frames)]
    · rfl

/-- What a dispatch does that begins with the next step. -/
structure Dispatches (m : Machine σ) (call : DispatchCall σ) : Prop where
  /-- The listeners that the node has are to be run. -/
  begins : m.step.frames =
    .dispatching call.node (m.world.listeners call.node) :: call.caller.frames
  /-- If the control is edited, it holds the text when the first of them is due. -/
  first : call.typed = some text → m.world.node? call.node = some (.element e) →
    m.step.world.controlValue call.node = text
  /-- As long as the call lasts, those that have been run are the first of them, and the rest are
  due. -/
  course : 0 < n → m.Ongoing call.caller.frames n → ∃ above rest,
    (run n m).frames = above ++ .dispatching call.node rest :: call.caller.frames ∧
      handled (runs? call.caller.frames.length) m n ++ rest = m.world.listeners call.node
  /-- Whenever no listener is in progress, the next one is run with what the control then holds. -/
  runs : m.Ongoing call.caller.frames n →
    (run n m).frames = .dispatching call.node (l :: rest) :: call.caller.frames →
    (run n m).Hears call.node l
  /-- If there is none, the call returns. -/
  ends : (run n m).frames = .dispatching call.node [] :: call.caller.frames →
    run (n + 1) m = { run n m with frames := call.caller.frames }
  /-- When it returns, all of them have been run, once for each time that they were added and in
  order. -/
  all : m.ReturnsTo call.caller.frames n →
    handled (runs? call.caller.frames.length) m n = m.world.listeners call.node
  /-- Whatever happens during the call or after it, listeners stay in their order, and new ones come
  after them. -/
  kept : Leads (fun _ => True) m a → Leads (fun _ => True) a b →
    a.world.listeners k <+: b.world.listeners k
  /-- So every later dispatch of the node runs them, also one that begins during the call. -/
  later : Leads (fun _ => True) m a → Leads (fun _ => True) a b → b.dispatching? = some other →
    ∃ added, b.step.frames = .dispatching other.node (a.world.listeners other.node ++ added) ::
      other.caller.frames

/-- A dispatch runs the listeners that its node has when it begins, each once for every time that it
was added and in that order, whatever they do meanwhile. -/
theorem dispatch_runs_its_snapshot {m : Machine σ} (reachable : m.Reachable)
    (calling : m.dispatching? = some call) : Dispatches m call := by
  obtain ⟨stepped, called⟩ := step_of_dispatching calling
  have begins : m.step.frames =
      .dispatching call.node (m.world.listeners call.node) :: call.caller.frames := by rw [stepped]
  have works := works_dispatching call.node call.caller.frames
  have quiet := runs?_of_dispatching calling call.caller.frames.length
  refine ⟨begins, typed_of_dispatching calling, works.along reachable quiet begins, ?_,
    fun due => ?_, works.all reachable quiet begins called, fun _ led => led.listeners _, ?_⟩
  · intro n l rest ongoing due
    have begun : 0 < n := by
      rw [Nat.pos_iff_ne_zero]
      rintro rfl
      simp [dispatching?, show m.frames = _ from due] at calling
    obtain ⟨above, rest', frames, same⟩ := works.along reachable quiet begins begun ongoing
    obtain ⟨rfl, top⟩ := List.append_inj' (show [] ++ _ = _ from due.symm.trans frames) rfl
    obtain ⟨-, rfl⟩ := Frame.dispatching.inj (List.cons.inj top).1
    refine hears_of_due due fun c host => ?_
    -- The listener was there when the call began, and still is.
    have listed : .host c ∈ m.world.listeners call.node := by
      rw [← same, host]
      simp
    exact exists_callback_of_listener (reachable_run n reachable)
      (((leads_run m n).listeners call.node).subset listed)
  · rw [run_succ]
    simp only [step, due]
  · intro a b other before led calling'
    obtain ⟨added, same⟩ := led.listeners other.node
    exact ⟨added, by rw [(step_of_dispatching calling').1, same]⟩

/-- A control with two listeners is edited. The first one, when it runs for the first time, adds a
third and dispatches once more; the second empties the control. -/
def chattering : Program Unit :=
  .call (.act (.newElement "input")) fun _ =>
  .call (.listen ⟨0⟩ fun _ => .look fun _ w =>
    if (w.listeners ⟨0⟩).length = 2 then
      .call (.listen ⟨0⟩ fun _ => .done) fun _ => .call (.dispatch ⟨0⟩) fun _ => .done
    else .done) fun _ =>
  .call (.listen ⟨0⟩ fun _ => .call (.act (.setControlValue ⟨0⟩ "")) fun _ => .done) fun _ =>
  .call (.input ⟨0⟩ "t") fun _ => .done

/-- The machine about to edit the control. -/
def chatteringMachine : Machine Unit := run 3 (start { host := () } chattering)

def chatteringCall : DispatchCall Unit :=
  ⟨{ chatteringMachine with
    world := chatteringMachine.world.setControlValue ⟨0⟩ "t"
    frames := [.program .done] }, ⟨0⟩, some "t"⟩

/-- The outer dispatch runs the two listeners that there were, the inner one all three. -/
theorem chattering_dispatch_runs_its_snapshot :
    chatteringMachine.Reachable ∧ chatteringMachine.dispatching? = some chatteringCall ∧
    Dispatches chatteringMachine chatteringCall ∧
    chatteringMachine.world.listeners ⟨0⟩ = [.host ⟨0⟩, .host ⟨1⟩] ∧
    chatteringMachine.step.world.controlValue ⟨0⟩ = "t" ∧
    chatteringMachine.ReturnsTo [.program .done] 19 ∧
    handled (runs? 1) chatteringMachine 19 = [.host ⟨0⟩, .host ⟨1⟩] ∧
    handled (runs? 3) chatteringMachine 19 = [.host ⟨0⟩, .host ⟨1⟩, .host ⟨2⟩] ∧
    (run 19 chatteringMachine).world.controlValue ⟨0⟩ = "" := by
  have reachable : chatteringMachine.Reachable :=
    reachable_run 3 (reachable_start (reachable_initial ()) rfl () chattering)
  have calling : chatteringMachine.dispatching? = some chatteringCall := by
    have due : chatteringMachine.frames =
        [.program (.call (.input ⟨0⟩ "t") fun _ => .done)] := by with_unfolding_all rfl
    simp only [dispatching?, due, chatteringCall]
  have dispatches := dispatch_runs_its_snapshot reachable calling
  have element : chatteringMachine.world.node? ⟨0⟩ = some (.element
      { tag := "input", listeners := [.host ⟨0⟩, .host ⟨1⟩] }) := by decide +kernel
  have returns : chatteringMachine.ReturnsTo [.program .done] 19 :=
    ⟨by decide, by decide +kernel, frames_of_finishing (by decide +kernel)⟩
  have heard : chatteringMachine.world.listeners ⟨0⟩ = [.host ⟨0⟩, .host ⟨1⟩] := by decide +kernel
  exact ⟨reachable, calling, dispatches, heard, dispatches.first rfl element, returns,
    (dispatches.all returns).trans heard, by decide +kernel, by decide +kernel⟩

end Machine
end DataBinding
