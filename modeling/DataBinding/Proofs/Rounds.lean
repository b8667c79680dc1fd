import DataBinding.Proofs.Mounts

/-! Calls that run to their end. While all watchers write into pages, telling them of a change
calls nothing else, so a call that stores a value comes back, and the world is then the one
in which all have been told, one after the other. -/
namespace DataBinding

/-- The subscriber is a watcher that writes into a page. -/
def World.Writes (w : World) (s : SubscriberId) : Prop :=
  ∃ x, w.watcher? s = some x ∧ ∀ c, x.reaction ≠ .callback c

namespace Machine
open World

variable {σ : Type}

/-- The machine goes on until it is another one. -/
def Comes (m m' : Machine σ) : Prop := ∃ n, run n m = m'

namespace Comes

theorem refl (m : Machine σ) : Comes m m := ⟨0, rfl⟩

theorem of_step {m m' : Machine σ} (stepped : m.step = m') : Comes m m' :=
  ⟨1, (run_succ 0 m).trans stepped⟩

theorem trans {a b c : Machine σ} (first : Comes a b) (second : Comes b c) : Comes a c := by
  obtain ⟨i, rfl⟩ := first
  obtain ⟨j, rfl⟩ := second
  refine ⟨i + j, ?_⟩
  induction j with
  | zero => rfl
  | succ j ih => rw [← Nat.add_assoc, run_succ, ih, run_succ]

/-- There is one end to come to. -/
theorem unique {m a b : Machine σ} (first : Comes m a) (idle : a.idle = true) (second : Comes m b)
    (idle' : b.idle = true) : a = b := by
  have stays : ∀ i d, (run i m).idle = true → run (i + d) m = run i m := by
    intro i d still
    induction d with
    | zero => rfl
    | succ d ih => rw [← Nat.add_assoc, run_succ, ih, step_of_idle still]
  obtain ⟨i, rfl⟩ := first
  obtain ⟨j, rfl⟩ := second
  rcases Nat.le_total i j with less | less
  · obtain ⟨d, rfl⟩ := Nat.exists_eq_add_of_le less
    exact (stays i d idle).symm
  · obtain ⟨d, rfl⟩ := Nat.exists_eq_add_of_le less
    exact stays j d idle'

end Comes

theorem update_writes {m : Machine σ} (writes : m.world.Writes s) :
    m.update s = { m with world := m.world.tell s } := by
  obtain ⟨x, found, reacts⟩ := writes
  have subscriber : m.world.subscriber? s = some (.watcher x) := subscriber_of_watcher found
  simp only [update, subscriber, refresh, read_enter_none, leave_enter]
  cases same : x.cached.same (m.world.peek x.root x.key) with
  | true =>
    rw [tell_known found same]
    rfl
  | false =>
    rw [tell_news found same]
    cases reaction : x.reaction with
    | callback c => exact absurd reaction (reacts c)
    | showText n => rfl
    | showValue n => rfl

/-- A round of telling comes to its end. -/
theorem comes_round {m : Machine σ} (due : m.frames = .notifying told rest :: below)
    (writes : ∀ s ∈ rest, m.world.Writes s) :
    m.Comes { m with world := rest.foldl tell m.world, frames := below } := by
  induction rest generalizing m with
  | nil => exact .of_step (by simp [step, due])
  | cons s rest ih =>
    let m' : Machine σ :=
      { m with world := m.world.tell s, frames := .notifying told rest :: below }
    have here : (({ m with frames := below } : Machine σ).push (.notifying told rest)).update s = m' :=
      update_writes (writes s List.mem_cons_self)
    have stepped : m.step = m' := by
      simp only [step, due]
      exact here
    have later : ∀ t ∈ rest, m'.world.Writes t := by
      intro t member
      obtain ⟨x, found, reacts⟩ := writes t (List.mem_cons_of_mem s member)
      rcases watcher?_tell m.world s t with same | ⟨-, y, v, present, after⟩
      · exact ⟨x, same.trans found, reacts⟩
      · obtain rfl := Option.some.inj (present.symm.trans found)
        exact ⟨_, after, reacts⟩
    exact (Comes.of_step stepped).trans (ih rfl later)

/-- A call that stores a value comes back when all have been told. -/
theorem comes_write {m : Machine σ} (owned : ∀ s, m.alive s = m.world.holds s)
    (writes : ∀ d, ∀ s ∈ m.world.entries d, m.world.holds s = true → m.world.Writes s)
    (o : ObjectId) (key : String) (v : Value) :
    (m.write o key v).Comes { m with world := m.world.stored o key v } := by
  have custody := custody_write m.world o key v
  unfold Machine.write World.stored
  cases written : m.world.write o key v with
  | mk w d? =>
    rw [written] at custody
    cases d? with
    | none => exact .refl _
    | some d =>
      obtain ⟨slot, found, tracked, news, rfl⟩ := write_eq_some written
      let now := (m.world.modifyObject o (·.replace key v)).observe v
      let live := (now.entries d).filter now.holds
      have held : ∀ s, now.holds s = m.world.holds s := fun s => holds_of_custody custody
      have alive : ∀ s, ({ m with world := now } : Machine σ).alive s = now.holds s := by
        intro s
        have same := owned s
        unfold Machine.alive at same ⊢
        rw [← held] at same
        exact same
      have begun : ({ m with world := now } : Machine σ).notify d =
          { m with
            world := { now with deps := now.deps.modify d.index fun _ => live }
            frames := .notifying live live :: m.frames } := by
        have same : (now.entries d).filter ({ m with world := now } : Machine σ).alive = live :=
          List.filter_congr fun s _ => alive s
        simp only [notify, push, same]
      have subscribers : now.subscribers = m.world.subscribers := subscribers_observeAll _ _
      change (({ m with world := now } : Machine σ).notify d).Comes _
      rw [begun]
      apply comes_round rfl
      intro s listed
      obtain ⟨entry, holds⟩ := List.mem_filter.mp listed
      have entries : now.entries d = m.world.entries d := entries_observe _ v d
      rw [entries] at entry
      obtain ⟨x, watching, reacts⟩ := writes d s entry ((held s) ▸ holds)
      exact ⟨x, (watcher?_of_subscribers subscribers s).trans watching, reacts⟩

/-- What the user of mounted pages does. -/
inductive Operation where
  | create (entries : List (String × Value))
  | mount (element : NodeId) (v : Value)
  | assign (vm : ViewModelId) (key : String) (v : Value)
  | input (n : NodeId) (text : String)

namespace Operation

def request : Operation → Request (Program σ)
  | .create entries => .act (.newObject entries)
  | .mount element v => .act (.mount element v)
  | .assign vm key v => .assign vm key v
  | .input n text => .input n text

/-- The program that does nothing else. -/
def program (op : Operation) : Program σ := .call op.request fun _ => .done

/-- What the operation does to the page by itself, before anything is stored. -/
def typed (w : World) : Operation → World
  | .input n text => w.setControlValue n text
  | _ => w

/-- What the operation stores, and where: the value of an assignment, or the text that the
control writes back. -/
def write? (w : World) : Operation → Option (ObjectId × String × Value)
  | .create _ => none
  | .mount _ _ => none
  | .assign vm key v => (w.viewModel? vm).map fun view => (view.data, key, v)
  | .input n text => (w.listeners n).findSome? fun
    | .host _ => none
    | .writeBack data key => some (data, key, .string text)

end Operation

/-- The machine, about to do the operation, comes to an end. -/
def Performs (m : Machine σ) (op : Operation) (m' : Machine σ) : Prop :=
  (m.start op.program).Comes m' ∧ m'.idle = true

/-- An operation comes to one end at most. -/
theorem Performs.unique {m a b : Machine σ} (first : m.Performs op a) (second : m.Performs op b) :
    a = b :=
  first.1.unique first.2 second.1 second.2

theorem comes_done {m : Machine σ} (due : m.frames = [.program .done]) :
    m.Comes { m with frames := [] } :=
  .of_step (by simp [step, due])

theorem performs_create (m : Machine σ) (entries : List (String × Value)) :
    m.Performs (.create entries)
      { m with
        world := (m.world.newObject (.ofEntries entries)).1
        frames := [], failure := none } := by
  refine ⟨?_, rfl⟩
  have stepped : (m.start (Operation.create entries).program).step =
      { m with
        world := (m.world.newObject (.ofEntries entries)).1
        frames := [.program .done], failure := none } := by
    simp [start, step, Operation.program, Operation.request, request, perform, push]
  exact (Comes.of_step stepped).trans (comes_done rfl)

theorem performs_mount (m : Machine σ) (mounts : m.world.mount element v = some (w', vm)) :
    m.Performs (.mount element v) { m with world := w', frames := [], failure := none } := by
  refine ⟨?_, rfl⟩
  have stepped : (m.start (Operation.mount element v).program).step =
      { m with world := w', frames := [.program .done], failure := none } := by
    simp [start, step, Operation.program, Operation.request, request, perform, mounts, push]
  exact (Comes.of_step stepped).trans (comes_done rfl)

/-- Whoever is on a dependency list and still held writes into pages. -/
private theorem writes_of_synced {w : World} (synced : Synced base pages w marks)
    (listed : s ∈ w.entries d) (held : w.holds s = true) : w.Writes s := by
  rcases synced.ordered.linked.entries listed with early | ⟨k, member, rfl, -⟩
  · rw [synced.gone early] at held
    cases held
  · obtain ⟨-, cached, found⟩ := synced.ordered.linked.watcher member
    refine ⟨_, found, fun c reacts => ?_⟩
    cases role : k.role <;> simp [Mark.reaction, role, Role.reaction] at reacts

/-- Calls that keep only what is held anyhow keep nobody alive. -/
theorem alive_of_kept {m : Machine σ}
    (kept : ∀ f ∈ m.frames, ∀ s, f.keeps s = true → m.world.holds s = true) (s : SubscriberId) :
    m.alive s = m.world.holds s := by
  rw [Bool.eq_iff_iff, alive_iff]
  constructor
  · rintro (held | ⟨f, member, keeps⟩)
    · exact held
    · exact kept f member s keeps
  · exact .inl

theorem performs_assign (m : Machine σ) (synced : Synced base pages m.world marks) (vm : ViewModelId)
    (key : String) (v : Value) :
    m.Performs (.assign vm key v)
      { m with
        world := match m.world.viewModel? vm with
          | none => m.world
          | some view => m.world.stored view.data key v
        frames := [], failure := none } := by
  refine ⟨?_, rfl⟩
  cases found : m.world.viewModel? vm with
  | none =>
    have stepped : (m.start (Operation.assign vm key v).program).step =
        { m with frames := [.program .done], failure := none } := by
      simp [start, step, Operation.program, Operation.request, request, push, found]
    exact (Comes.of_step stepped).trans (comes_done rfl)
  | some view =>
    let begun : Machine σ :=
      { m with frames := [.keeping view.watchers, .program .done], failure := none }
    have stepped : (m.start (Operation.assign vm key v).program).step = begun.write view.data key v := by
      simp [start, step, Operation.program, Operation.request, request, push, found, begun]
    have owned : ∀ s, begun.alive s = begun.world.holds s := by
      apply alive_of_kept
      intro f member s keeps
      simp only [begun, List.mem_cons, List.not_mem_nil, or_false] at member
      rcases member with rfl | rfl
      · exact holds_of_viewModel found (List.contains_iff_mem.mp keeps)
      · cases keeps
    have written := comes_write owned (fun d s => writes_of_synced synced) view.data key v
    let told : Machine σ :=
      { m with
        world := m.world.stored view.data key v
        frames := [.program .done], failure := none }
    have popped : ({ begun with world := m.world.stored view.data key v } : Machine σ).step = told := by
      simp [step, begun, told]
    have ended : told.Comes { told with frames := [] } := comes_done rfl
    exact (Comes.of_step stepped).trans (written.trans ((Comes.of_step popped).trans ended))

theorem performs_silent_input (m : Machine σ) (silent : m.world.listeners n = []) (text : String) :
    m.Performs (.input n text)
      { m with world := m.world.setControlValue n text, frames := [], failure := none } := by
  refine ⟨?_, rfl⟩
  have same : (m.world.setControlValue n text).listeners n = [] :=
    ((spares_setControlValue m.world n text).listeners (by simp)).trans silent
  let begun : Machine σ :=
    { m with
      world := m.world.setControlValue n text
      frames := [.dispatching n [], .program .done], failure := none }
  have stepped : (m.start (Operation.input n text).program).step = begun := by
    simp [start, step, Operation.program, Operation.request, request, push, dispatch, same, begun]
  have popped : begun.step = { begun with frames := [.program .done] } := by simp [step, begun]
  exact (Comes.of_step stepped).trans ((Comes.of_step popped).trans (comes_done rfl))

theorem performs_input (m : Machine σ) (synced : Synced base pages m.world marks)
    (member : k ∈ marks) (control : k.role = .control)
    (listens : m.world.listeners k.node = [.writeBack k.data k.key]) (text : String) :
    m.Performs (.input k.node text)
      { m with
        world := (m.world.setControlValue k.node text).stored k.data k.key (.string text)
        frames := [], failure := none } := by
  refine ⟨?_, rfl⟩
  let typed := m.world.setControlValue k.node text
  let stored := typed.stored k.data k.key (.string text)
  have same : typed.listeners k.node = [.writeBack k.data k.key] :=
    ((spares_setControlValue m.world k.node text).listeners (by simp)).trans listens
  have holds : typed.controlValue k.node = text := by
    obtain ⟨x, found, fits⟩ := synced.ordered.linked.fits member
    cases x with
    | text content => simp [control, Role.Fits] at fits
    | element e => exact controlValue_of_element (node?_setControlValue_element text found)
  let heard : List Listener → Machine σ := fun rest =>
    { m with world := typed, frames := [.dispatching k.node rest, .program .done], failure := none }
  have stepped : (m.start (Operation.input k.node text).program).step =
      heard [.writeBack k.data k.key] := by
    simp [start, step, Operation.program, Operation.request, request, push, dispatch, heard, same, typed]
  have triggered : (heard [.writeBack k.data k.key]).step =
      (heard []).write k.data k.key (.string text) := by
    simp [step, heard, push, trigger, holds]
  have owned : ∀ s, (heard []).alive s = (heard []).world.holds s := by
    apply alive_of_kept
    intro f member s keeps
    simp only [heard, List.mem_cons, List.not_mem_nil, or_false] at member
    rcases member with rfl | rfl <;> cases keeps
  have writes : ∀ d, ∀ s ∈ typed.entries d, typed.holds s = true → typed.Writes s := by
    intro d s listed held
    obtain ⟨x, found, reacts⟩ := writes_of_synced (w := m.world) synced listed held
    exact ⟨x, found, reacts⟩
  have written := comes_write owned writes k.data k.key (.string text)
  let told : Machine σ := { m with world := stored, frames := [.program .done], failure := none }
  have popped : ({ heard [] with world := stored } : Machine σ).step = told := by
    simp [step, heard, told]
  have ended : told.Comes { told with frames := [] } := comes_done rfl
  exact (Comes.of_step stepped).trans ((Comes.of_step triggered).trans
    (written.trans ((Comes.of_step popped).trans ended)))

end Machine
end DataBinding
