import DataBinding.Proofs.Coherence
import DataBinding.Proofs.Controls
import DataBinding.Proofs.Silence

/-! Programs that edit: they read and write data, type into form controls and add watchers
whose callbacks do the same. Their runs are never broken off, nobody loses an owner in
them, and a step changes the page in one of two ways: a text is typed, or the reaction of a
watcher starts. -/
namespace DataBinding

variable {σ : Type}

/-- The program, and each callback that it hands over, only reads and writes data, types
into controls and adds watchers. -/
inductive Program.Edits : Program σ → Prop where
  | done : Program.Edits .done
  | look (later : ∀ host w, Program.Edits (next host w)) : Program.Edits (.look next)
  | keep (later : Program.Edits next) : Program.Edits (.keep change next)
  | read (later : ∀ r, Program.Edits (next r)) : Program.Edits (.call (.act (.read o key)) next)
  | write (later : ∀ r, Program.Edits (next r)) : Program.Edits (.call (.write o key v) next)
  | assign (later : ∀ r, Program.Edits (next r)) : Program.Edits (.call (.assign vm key v) next)
  | input (later : ∀ r, Program.Edits (next r)) : Program.Edits (.call (.input n text) next)
  | watch (callback : ∀ v, Program.Edits (handed v)) (later : ∀ r, Program.Edits (next r)) :
      Program.Edits (.call (.watch root key handed) next)

namespace Machine
open World

/-- All that is in progress edits, and so does whatever may still be called. -/
structure Edits (m : Machine σ) : Prop where
  programs : .program p ∈ m.frames → p.Edits
  callbacks : m.callbacks.get? i = some callback → (callback v).Edits

namespace Edits

/-- Programs that are in progress after a change were so before, or edit. -/
private theorem of_frames {m m' : Machine σ} (edits : m.Edits) (same : m'.callbacks = m.callbacks)
    (origin : ∀ p, .program p ∈ m'.frames → .program p ∈ m.frames ∨ p.Edits) : m'.Edits where
  programs member := (origin _ member).elim edits.programs id
  callbacks found := edits.callbacks (same ▸ found)

private theorem push_program {m : Machine σ} (edits : m.Edits) {p : Program σ} (edits' : p.Edits) :
    (m.push (.program p)).Edits := by
  refine edits.of_frames rfl ?_
  intro q member
  rcases List.mem_cons.mp member with same | old
  · exact .inr (Frame.program.inj same ▸ edits')
  · exact .inl old

/-- Frames other than programs do not matter. -/
private theorem push {m : Machine σ} (edits : m.Edits) {f : Frame σ}
    (other : ∀ p, f ≠ .program p) : (m.push f).Edits := by
  refine edits.of_frames rfl ?_
  intro q member
  rcases List.mem_cons.mp member with same | old
  · exact absurd same.symm (other q)
  · exact .inl old

private theorem invoke {m : Machine σ} (edits : m.Edits) (c : CallbackId) (v : Value) :
    (m.invoke c v).Edits := by
  unfold Machine.invoke
  split
  · exact edits
  · rename_i callback found
    exact edits.push_program (edits.callbacks found)

private theorem write {m : Machine σ} (edits : m.Edits) (o : ObjectId) (key : String) (v : Value) :
    (m.write o key v).Edits := by
  unfold Machine.write
  split
  · exact edits.of_frames rfl fun _ member => .inl member
  · rename_i w d _
    have stored : Machine.Edits { m with world := w } :=
      edits.of_frames rfl fun _ member => .inl member
    refine stored.of_frames rfl fun p member => .inl ?_
    rcases List.mem_cons.mp member with same | old
    · cases same
    · exact old

private theorem update {m : Machine σ} (edits : m.Edits) (s : SubscriberId) : (m.update s).Edits := by
  have world : ∀ w : World, Machine.Edits { m with world := w } := fun w =>
    edits.of_frames rfl fun _ member => .inl member
  unfold Machine.update
  split
  · exact edits
  · exact edits.invoke _ _
  · split
    · exact world _
    · split
      · exact (world _).invoke _ _
      · exact world _

private theorem addCallback {m : Machine σ} (edits : m.Edits) {callback : Value → Program σ}
    (handed : ∀ v, (callback v).Edits) : (m.addCallback callback).1.Edits where
  programs := edits.programs
  callbacks {i found v} present := by
    simp only [Machine.addCallback, Arena.get?_push] at present
    split at present
    · exact Option.some.inj present ▸ handed v
    · exact edits.callbacks present

/-- Dropping the top frame. -/
private theorem pop {m : Machine σ} (edits : m.Edits) (due : m.frames = top :: below) :
    Machine.Edits { m with frames := below } :=
  edits.of_frames rfl fun _ member => .inl (due ▸ List.mem_cons_of_mem _ member)

private theorem request {m : Machine σ} (edits : m.Edits) {r : Request (Program σ)}
    (call : (Program.call r next).Edits) : (m.request next r).Edits := by
  have world : ∀ w : World, Machine.Edits { m with world := w } := fun w =>
    edits.of_frames rfl fun _ member => .inl member
  cases call with
  | read later => exact (world _).push_program (later _)
  | write later => exact (edits.push_program (later _)).write _ _ _
  | assign later =>
    simp only [Machine.request]
    split
    · exact edits.push_program (later _)
    · exact ((edits.push_program (later _)).push (by simp)).write _ _ _
  | input later => exact ((world _).push_program (later _)).push (by simp)
  | watch callback later =>
    have handed := edits.addCallback callback
    refine push_program ?_ (later _)
    exact handed.of_frames rfl fun _ member => .inl member

protected theorem step {m : Machine σ} (edits : m.Edits) : m.step.Edits := by
  cases due : m.frames with
  | nil =>
    have still : m.step = m := by simp [Machine.step, due]
    rw [still]
    exact edits
  | cons top below =>
    have rest := edits.pop due
    simp only [Machine.step, due]
    cases top with
    | program p =>
      have program : p.Edits := edits.programs (due ▸ List.mem_cons_self)
      cases program with
      | done => exact rest
      | look later => exact rest.push_program (later _ _)
      | keep later =>
        refine push_program ?_ later
        exact rest.of_frames rfl fun _ member => .inl member
      | read later => exact rest.request (.read later)
      | write later => exact rest.request (.write later)
      | assign later => exact rest.request (.assign later)
      | input later => exact rest.request (.input later)
      | watch callback later => exact rest.request (.watch callback later)
    | notifying told untold =>
      cases untold with
      | nil => exact rest
      | cons s untold => exact (rest.push (by simp)).update s
    | dispatching n more =>
      cases more with
      | nil => exact rest
      | cons l more =>
        cases l with
        | host c => exact (rest.push (by simp)).invoke c _
        | writeBack data key => exact (rest.push (by simp)).write data key _
    | scope => exact rest.of_frames rfl fun _ member => .inl member
    | keeping kept => exact rest

end Edits

/-- The text that the next step types, and the node that it is typed into. -/
def typing? (m : Machine σ) : Option (NodeId × String) :=
  match m.frames with
  | .program (.call (.input n text) _) :: _ => some (n, text)
  | _ => none

/-- What a step of an editing program does to nodes and watchers. -/
inductive Effect (m m' : Machine σ) : Prop where
  | none (typing : m.typing? = none) (fires : m.fires? = none)
      (nodes : m'.world.nodes = m.world.nodes)
      (subscribers : m'.world.subscribers = m.world.subscribers)
  /-- A watcher with a callback is added. -/
  | watches (typing : m.typing? = none) (fires : m.fires? = none)
      (nodes : m'.world.nodes = m.world.nodes) (reaction : x.reaction = .callback c)
      (subscribers : m'.world.subscribers = m.world.subscribers.push (.watcher x))
  | types (typing : m.typing? = some (n, text)) (fires : m.fires? = none)
      (nodes : m'.world.nodes = (m.world.setControlValue n text).nodes)
      (subscribers : m'.world.subscribers = m.world.subscribers)
  | reacts (typing : m.typing? = none) (fires : m.fires? = some (s, x, v))
      (world : m'.world = (m.world.remember s v).react x.reaction v)

/-- Nothing is broken off, and no view model is given up. -/
def Steady (m m' : Machine σ) : Prop :=
  m'.failure = m.failure ∧ m'.world.viewModels = m.world.viewModels

/-- Storing a value changes neither the page nor the subscribers. -/
theorem world_write (m : Machine σ) (o : ObjectId) (key : String) (v : Value) :
    (m.write o key v).world.nodes = m.world.nodes ∧
      (m.write o key v).world.subscribers = m.world.subscribers ∧ Steady m (m.write o key v) := by
  obtain ⟨nodes, subscribers, -⟩ := write_same m.world o key v
  have kept := viewModels_of_custody (custody_write m.world o key v)
  unfold write
  split
  · rename_i w written
    rw [written] at nodes subscribers kept
    exact ⟨nodes, subscribers, rfl, kept⟩
  · rename_i w d written
    rw [written] at nodes subscribers kept
    exact ⟨nodes, subscribers, rfl, kept⟩

private theorem effect_of_world {m m' : Machine σ} (typing : m.typing? = none)
    (fires : m.fires? = none) (world : m'.world = m.world) : Effect m m' :=
  .none typing fires (by rw [world]) (by rw [world])

private theorem world_invoke (m : Machine σ) (c : CallbackId) (v : Value) :
    (m.invoke c v).world = m.world ∧ Steady m (m.invoke c v) := by
  rcases invoke_cases m c v with same | ⟨p, same⟩
  · rw [same]
    exact ⟨rfl, rfl, rfl⟩
  · rw [same]
    exact ⟨rfl, rfl, rfl⟩

/-- What a request of an editing program does. -/
private theorem effect_request {m : Machine σ} {r : Request (Program σ)}
    (due : m.frames = .program (.call r next) :: below) (call : (Program.call r next).Edits) :
    Effect m (request { m with frames := below } next r) ∧
      Steady m (request { m with frames := below } next r) := by
  have fires : (∀ s, r ≠ .update s) → m.fires? = none := by
    intro other
    cases r <;> simp_all [fires?, told?]
  have typing : (∀ n text, r ≠ .input n text) → m.typing? = none := by
    intro other
    cases r <;> simp_all [typing?]
  cases call with
  | @read _ o key later =>
    refine ⟨.none (typing (by simp)) (fires (by simp)) ?_ ?_, rfl, ?_⟩
    · exact nodes_read m.world o key
    · exact subscribers_read m.world o key
    · exact viewModels_of_custody (custody_read m.world o key)
  | @write _ o key v later =>
    obtain ⟨nodes, subscribers, steady⟩ := world_write
      (push { m with frames := below } (.program (next .done))) o key v
    exact ⟨.none (typing (by simp)) (fires (by simp)) nodes subscribers, steady⟩
  | @assign _ vm key v later =>
    simp only [request]
    split
    · exact ⟨effect_of_world (typing (by simp)) (fires (by simp)) rfl, rfl, rfl⟩
    · rename_i view _
      obtain ⟨nodes, subscribers, steady⟩ := world_write
        ((push { m with frames := below } (.program (next .done))).push (.keeping view.watchers))
        view.data key v
      exact ⟨.none (typing (by simp)) (fires (by simp)) nodes subscribers, steady⟩
  | @input _ n text later =>
    refine ⟨.types ?_ (fires (by simp)) rfl rfl, rfl, rfl⟩
    simp [typing?, due]
  | @watch handed _ root key callback later =>
    have nodes := nodes_watch m.world root key (.callback ⟨m.callbacks.size⟩)
    have subscribers := subscribers_watch m.world root key (.callback ⟨m.callbacks.size⟩)
    have kept := viewModels_of_custody
      (custody_watch m.world root key (.callback ⟨m.callbacks.size⟩))
    exact ⟨.watches (typing (by simp)) (fires (by simp)) nodes rfl subscribers, rfl, kept⟩

/-- The step of an editing program has one of the effects, and breaks nothing off. -/
theorem Edits.effect {m : Machine σ} (edits : m.Edits) :
    Effect m m.step ∧ Steady m m.step := by
  cases due : m.frames with
  | nil =>
    have still : m.step = m := by simp [Machine.step, due]
    rw [still]
    exact ⟨effect_of_world (by simp [typing?, due]) (by simp [fires?, told?, due]) rfl, rfl, rfl⟩
  | cons top below =>
    cases top with
    | program p =>
      have program : p.Edits := edits.programs (due ▸ List.mem_cons_self)
      cases p with
      | call r next =>
        have same : m.step = Machine.request { m with frames := below } next r := by
          simp [Machine.step, due]
        rw [same]
        exact effect_request due program
      | done | look | keep =>
        have quiet : m.typing? = none ∧ m.fires? = none := by simp [typing?, fires?, told?, due]
        have same : m.step.world = m.world ∧ Steady m m.step := by
          simp [Steady, Machine.step, Machine.push, due]
        exact ⟨effect_of_world quiet.1 quiet.2 same.1, same.2⟩
    | notifying told untold =>
      have typing : m.typing? = none := by simp [typing?, due]
      cases untold with
      | nil =>
        have same : m.step.world = m.world ∧ Steady m m.step := by
          simp [Steady, Machine.step, due]
        exact ⟨effect_of_world typing (by simp [fires?, told?, due]) same.1, same.2⟩
      | cons s rest =>
        have steady : Steady m m.step := by
          simp only [Machine.step, due]
          have kept := viewModels_of_custody
            (custody_update (Machine.push { m with frames := below } (.notifying told rest)) s)
          rcases update_cases (Machine.push { m with frames := below } (.notifying told rest)) s with
            ⟨_, same, -⟩ | ⟨_, _, -, -, -, same⟩
          · rw [same] at kept ⊢
            exact ⟨rfl, kept⟩
          · rw [same] at kept ⊢
            exact ⟨rfl, kept⟩
        have next : m.told? = some s := by simp [told?, due]
        rcases world_of_told next with ⟨fires, world⟩ | ⟨x, v, fires, world⟩
        · exact ⟨effect_of_world typing fires world, steady⟩
        · exact ⟨.reacts typing fires world, steady⟩
    | dispatching n more =>
      have typing : m.typing? = none := by simp [typing?, due]
      have fires : m.fires? = none := by simp [fires?, told?, due]
      cases more with
      | nil =>
        have same : m.step.world = m.world ∧ Steady m m.step := by
          simp [Steady, Machine.step, due]
        exact ⟨effect_of_world typing fires same.1, same.2⟩
      | cons l rest =>
        simp only [Machine.step, due]
        cases l with
        | host c =>
          obtain ⟨world, steady⟩ := world_invoke
            (Machine.push { m with frames := below } (.dispatching n rest)) c
            (.string (m.world.controlValue n))
          exact ⟨effect_of_world typing fires world, steady⟩
        | writeBack data key =>
          obtain ⟨nodes, subscribers, steady⟩ := world_write
            (Machine.push { m with frames := below } (.dispatching n rest)) data key
            (.string (m.world.controlValue n))
          exact ⟨.none typing fires nodes subscribers, steady⟩
    | scope | keeping =>
      have quiet : m.typing? = none ∧ m.fires? = none := by simp [typing?, fires?, told?, due]
      have same : m.step.world.nodes = m.world.nodes ∧
          m.step.world.subscribers = m.world.subscribers ∧ Steady m m.step := by
        simp [Steady, Machine.step, due, World.leave]
      exact ⟨.none quiet.1 quiet.2 same.1 same.2.1, same.2.2⟩

end Machine
end DataBinding
