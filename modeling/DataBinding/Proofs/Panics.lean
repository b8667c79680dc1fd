import DataBinding.Proofs.Guards
import DataBinding.Proofs.Reactive
import DataBinding.Proofs.Silence

/-! Panics. Whatever is in progress when a callback panics is given up at once: nobody else is told,
and nothing is undone but the entries that scopes have on the stack of collecting subscribers. What was
stored stays stored, and what a watcher remembers it has remembered before its callback began. -/
namespace DataBinding

namespace World

/-- Where what is tracked now was tracked before, a tracked property is as it was. -/
theorem slot?_of_rests {w w' : World} (retains : Retains w w') (rests : ∀ {o slot},
    slot ∈ (w'.properties o).slots → slot.dep ≠ none → slot ∈ (w.properties o).slots)
    (found : w.slot? o key = some slot) (tracked : slot.dep = some d) :
    w'.slot? o key = some slot := by
  obtain ⟨i, there, rfl⟩ := Properties.find?_eq_some_iff.mp found
  obtain ⟨later, now, named, still⟩ := retains o i slot there
  have listed : later.dep ≠ none := still d tracked ▸ nofun
  obtain ⟨j, was⟩ := List.mem_iff_getElem?.mp (rests (List.mem_of_getElem? now) listed)
  have same := Properties.find?_eq_some_iff.mpr ⟨j, was, named⟩
  obtain rfl := Option.some.inj (found.symm.trans same)
  exact Properties.find?_eq_some_iff.mpr ⟨i, now, rfl⟩

end World

namespace Machine
open World

variable {σ : Type}

/-- A tracked property keeps its value but for a write. -/
theorem slot?_step {m : Machine σ} (sound : m.Sound) (found : m.world.slot? o key = some slot)
    (tracked : slot.dep = some d)
    (unwritten : ∀ call, m.writing? = some call → ¬(call.root = o ∧ call.key = key)) :
    m.step.world.slot? o key = some slot := by
  have retains := (step_turn fun _ => sound.known).retains
  cases step_concerns m with
  | rests _ rests => exact slot?_of_rests retains rests.tracked found tracked
  | silent _ _ written => exact slot?_of_rests retains (tracked_write written) found tracked
  | @stores call calling _ objects =>
    have other : ¬(o = call.root ∧ key = call.key) := fun same =>
      unwritten call calling ⟨same.1.symm, same.2.symm⟩
    rw [slot?_of_objects objects]
    exact (moves_observe _ _).grows.tracked (slot?_replace_other call.value found other) tracked
  | @observes w v _ rests moves objects =>
    have before := slot?_of_rests moves.retains rests.tracked found tracked
    rw [slot?_of_objects objects]
    exact (moves_observe w v).grows.tracked before tracked

/-- A watcher remembers what it does until it reacts to another value. -/
theorem watcher?_step {m : Machine σ} (sound : m.Sound) (found : m.world.watcher? s = some x)
    (quiet : ∀ y v, m.fires? ≠ some (s, y, v)) : m.step.world.watcher? s = some x := by
  cases told : m.told? with
  | some t =>
    rcases world_of_told told with ⟨-, same⟩ | ⟨y, v, fires, same⟩
    · rw [same]
      exact found
    · have other : t ≠ s := by
        rintro rfl
        exact quiet y v fires
      obtain ⟨-, -, subscribers⟩ := react_same (m.world.remember t v) y.reaction v
      rw [same, watcher?_of_subscribers subscribers, watcher?_remember, if_neg other]
      exact found
  | none =>
    have turn := step_turn fun _ => sound.known
    generalize m.step = m' at turn
    cases turn with
    | still | notify => exact found
    | calm _ _ _ moves => exact moves.grows.watcher found
    | tell _ told' => cases told.symm.trans told'
    | store => exact (watcher?_of_subscribers (subscribers_observeAll _ _) s).trans found
    | broken moves => exact moves.grows.watcher found

/-- What a step leaves alone as long as it does not concern it, a run of such steps does. -/
theorem run_kept {m : Machine σ} {P : World → Prop} {n : Nat} (holds : P (run i m).world)
    (early : i ≤ n) (each : ∀ j, i ≤ j → j < n → P (run j m).world → P (run j m).step.world) :
    P (run n m).world := by
  induction early with
  | refl => exact holds
  | @step n early ih =>
    rw [run_succ]
    exact each n early (Nat.lt_succ_self n)
      (ih fun j after before => each j after (Nat.lt_succ_of_lt before))

/-- The world after a step that stores another value in a tracked property. -/
private theorem objects_of_storing {m : Machine σ} (calling : m.writing? = some call)
    (found : m.world.slot? call.root call.key = some slot) (tracked : slot.dep = some d)
    (changes : slot.value.same call.value = false) : m.step.world.objects =
      ((m.world.modifyObject call.root (·.replace call.key call.value)).observe
        call.value).objects := by
  rw [step_of_writing calling, Machine.write, (caller_of_writing calling).1,
    write_of_changes found tracked changes]
  rfl

/-- The message with which the next step breaks everything off, if a program asks for that. -/
def panics? (m : Machine σ) : Option String :=
  match m.frames with
  | .program (.call (.panic message) _) :: _ => some message
  | _ => none

/-- The next step stores another value in a tracked property. -/
structure Stores (m : Machine σ) (call : WriteCall σ) (slot : Slot) (d : DepId) : Prop where
  calling : m.writing? = some call
  found : m.world.slot? call.root call.key = some slot
  tracked : slot.dep = some d
  changes : slot.value.same call.value = false

/-- How a panic leaves a call that was made `n` steps before it. -/
structure Leaves (m₀ : Machine σ) (n held : Nat) (message : String) : Prop where
  /-- The world is as it was at that moment and no call is in progress, but one entry for each scope is
  gone from the top of the stack. Of the others none is gone: those that the host keeps for the
  callbacks, and below them the stack that the call found. -/
  state : ∃ own kept, (run n m₀).world.targets = own ++ (kept ++ m₀.world.targets) ∧
    own.length = (run n m₀).frames.countP (·.scoped) ∧ kept.length = held ∧
    run (n + 1) m₀ = { run n m₀ with
      world := { (run n m₀).world with targets := kept ++ m₀.world.targets }
      frames := []
      failure := some (.panic message) }
  /-- The calls keep nobody alive any more. -/
  released (s : SubscriberId) : (run (n + 1) m₀).alive s = (run (n + 1) m₀).world.holds s
  /-- Nobody is told after it, whoever was still to be told at any level. -/
  ended (k : Nat) : run (n + 1 + k) m₀ = run (n + 1) m₀
  /-- What was stored before is stored, unless the same property was written again. -/
  stored : i ≤ n → (run i m₀).Stores call slot d →
    (∀ j, i < j → j ≤ n → ∀ later, (run j m₀).writing? = some later →
      ¬(later.root = call.root ∧ later.key = call.key)) →
    (run (n + 1) m₀).world.slot? call.root call.key = some { slot with value := call.value }
  /-- And it was observed, before anybody was told of it. -/
  observed : i ≤ n → (run i m₀).Stores call slot d →
    ((run i m₀).world.modifyObject call.root (·.replace call.key call.value)).Reached
      [call.value] o →
    ∀ slot' ∈ ((run (i + 1) m₀).world.properties o).slots, ∃ e, slot'.dep = some e ∧
      (run (n + 1) m₀).world.Tracked o slot'.key e
  /-- A watcher remembers the value for which its callback was called, unless it was called again. -/
  refreshed : i ≤ n → (run i m₀).fires? = some (s, x, v) →
    (∀ j, i < j → j ≤ n → ∀ y u, (run j m₀).fires? ≠ some (s, y, u)) →
    (run (n + 1) m₀).world.watcher? s = some { x with cached := v }

section Leaving

variable {m₀ : Machine σ}

private theorem sound_run (reachable : m₀.Reachable) (n : Nat) : (run n m₀).Sound :=
  reachable_sound (reachable_run n reachable)

private theorem stored_run (reachable : m₀.Reachable) (early : i ≤ n)
    (stores : (run i m₀).Stores call slot d)
    (last : ∀ j, i < j → j ≤ n → ∀ later, (run j m₀).writing? = some later →
      ¬(later.root = call.root ∧ later.key = call.key)) :
    (run (n + 1) m₀).world.slot? call.root call.key = some { slot with value := call.value } := by
  obtain ⟨calling, found, tracked, changes⟩ := stores
  have now : (run (i + 1) m₀).world.slot? call.root call.key =
      some { slot with value := call.value } := by
    rw [run_succ, slot?_of_objects (objects_of_storing calling found tracked changes)]
    exact (moves_observe _ _).grows.tracked (slot?_replace_self call.value found) tracked
  refine run_kept (P := fun w => w.slot? call.root call.key = some { slot with value := call.value })
    now (Nat.succ_le_succ early) fun j after before kept => ?_
  exact slot?_step (sound_run reachable j) kept tracked
    (last j after (Nat.le_of_lt_succ before))

private theorem observed_run (reachable : m₀.Reachable) (early : i ≤ n)
    (stores : (run i m₀).Stores call slot d)
    (reached : ((run i m₀).world.modifyObject call.root
      (·.replace call.key call.value)).Reached [call.value] o)
    (there : slot' ∈ ((run (i + 1) m₀).world.properties o).slots) :
    ∃ e, slot'.dep = some e ∧ (run (n + 1) m₀).world.Tracked o slot'.key e := by
  obtain ⟨calling, found, tracked, changes⟩ := stores
  have place := id there
  rw [run_succ, properties, objects_of_storing calling found tracked changes] at place
  obtain ⟨e, listed⟩ := Option.ne_none_iff_exists'.mp (tracked_observeAll reached place)
  obtain ⟨k, position⟩ := List.mem_iff_getElem?.mp there
  have now : (run (i + 1) m₀).world.Tracked o slot'.key e :=
    ⟨slot', Properties.find?_eq_some_iff.mpr ⟨k, position, rfl⟩, listed⟩
  refine ⟨e, listed, run_kept (P := fun w => w.Tracked o slot'.key e) now
    (Nat.succ_le_succ early) fun j _ _ kept => ?_⟩
  exact (step_turn fun _ => (sound_run reachable j).known).tracked kept

private theorem refreshed_run (reachable : m₀.Reachable) (early : i ≤ n)
    (fires : (run i m₀).fires? = some (s, x, v))
    (last : ∀ j, i < j → j ≤ n → ∀ y u, (run j m₀).fires? ≠ some (s, y, u)) :
    (run (n + 1) m₀).world.watcher? s = some { x with cached := v } := by
  have now : (run (i + 1) m₀).world.watcher? s = some { x with cached := v } := by
    rw [run_succ]
    rcases world_of_told (told_of_fires fires) with ⟨quiet, -⟩ | ⟨y, u, fires', same⟩
    · cases quiet.symm.trans fires
    · cases fires.symm.trans fires'
      obtain ⟨-, -, subscribers⟩ := react_same ((run i m₀).world.remember s v) x.reaction v
      rw [same, watcher?_of_subscribers subscribers, watcher?_remember, if_pos rfl,
        watcher_of_fires fires]
      rfl
  refine run_kept (P := fun w => w.watcher? s = some { x with cached := v }) now
    (Nat.succ_le_succ early) fun j after before kept => ?_
  exact watcher?_step (sound_run reachable j) kept (last j after (Nat.le_of_lt_succ before))

/-- A panic leaves the call that nobody called with exactly what there was at that moment. Only the
stack is what the call found again, with the entries on top that the host keeps for callbacks; as long
as callbacks ask for the removal of these before they end, they are those of callbacks that the panic
cuts off. The entries of scopes go with the scopes. For that no callback may take off what it did not
put there. -/
theorem panics_undo_nothing (reachable : m₀.Reachable) (due : m₀.frames = [.program p])
    (lasts : ∀ i ≤ n, 0 < i → 1 < (run i m₀).frames.length)
    (clean : ∀ i < n, (run i m₀).EndsClean (m₀.holding i))
    (own : ∀ i < n, (run i m₀).DropsOwn (m₀.holding i))
    (panics : (run n m₀).panics? = some message) : Leaves m₀ n (m₀.holding n).sum message := by
  obtain ⟨next, below, top⟩ : ∃ next below,
      (run n m₀).frames = .program (.call (.panic message) next) :: below := by
    unfold panics? at panics
    split at panics
    · rename_i due
      cases panics
      exact ⟨_, _, due⟩
    · cases panics
  have broken : run (n + 1) m₀ = breakOff { run n m₀ with frames := below } (.panic message) := by
    rw [run_succ]
    simp only [step, top, request]
  have idle : (run (n + 1) m₀).frames = [] := by rw [broken]; rfl
  refine ⟨?_, fun s => ?_, fun k => ?_, stored_run reachable,
    fun early stores reached _ => observed_run reachable early stores reached,
    refreshed_run reachable⟩
  · obtain ⟨above, caller, kept, frames, plain, -, targets, sum⟩ := stacked_run due lasts clean own
    -- One entry is taken off for each scope, and only scopes have put some there by themselves.
    have all : (run n m₀).frames.countP (·.scoped) = above.countP (·.scoped) := by
      rw [frames, List.countP_append, List.countP_singleton, plain]
      rfl
    have entries : below.countP (·.scoped) = above.countP (·.scoped) := by
      rw [← all, top, List.countP_cons]
      rfl
    have least : above.countP (·.scoped) ≤ kept.length := by omega
    refine ⟨kept.take (above.countP (·.scoped)), kept.drop (above.countP (·.scoped)), ?_, ?_, ?_, ?_⟩
    · rw [targets, ← List.append_assoc, List.take_append_drop]
    · rw [all, List.length_take, Nat.min_eq_left least]
    · rw [List.length_drop, sum]
      omega
    · have world := world_breakOff { run n m₀ with frames := below } (.panic message)
      simp only [entries, targets, List.drop_append_of_le_length least] at world
      rw [broken, ← world]
      rfl
  · rw [alive, idle]
    simp
  · induction k with
    | zero => rfl
    | succ k ih => rw [← Nat.add_assoc, run_succ, ih, step_of_idle (by simp [Machine.idle, idle])]

end Leaving

/-- A subscriber collects while a property is written. The callback of a watcher puts it onto the
stack once more and takes it off again, and under cover it writes another property while the subscriber
collects; the callback that is called then panics, and another watcher of the first property is still to
be told. -/
def unwound : Program Unit :=
  .call (.act (.newObject [("a", .null), ("b", .null)])) fun _ =>
  .call (.act (.observe (.object ⟨0⟩))) fun _ =>
  .call (.subscribe fun _ => .done) fun _ =>
  .call (.watch ⟨0⟩ "a" fun _ =>
    .call (.enter ⟨0⟩) fun _ => .call (.act .leave) fun _ =>
    .call (.untracked (.call (.collecting ⟨0⟩ (.call (.write ⟨0⟩ "b" (.bool true)) fun _ => .done))
      fun _ => .done)) fun _ => .done) fun _ =>
  .call (.watch ⟨0⟩ "b" fun _ => .call (.panic "stop") fun _ => .done) fun _ =>
  .call (.watch ⟨0⟩ "a" fun _ => .done) fun _ =>
  .call (.enter ⟨0⟩) fun _ =>
  .call (.write ⟨0⟩ "a" (.bool true)) fun _ => .done

/-- The machine about to make the outer write. -/
def unwoundMachine : Machine Unit := run 7 (start { host := () } unwound)

/-- Both values are stored, the first two watchers remember them and the third does not, and the
stack is what it was. -/
theorem unwound_write_undoes_nothing :
    unwoundMachine.Reachable ∧ unwoundMachine.Leaves 8 0 "stop" ∧
    unwoundMachine.world.targets = [some ⟨0⟩] ∧ (run 8 unwoundMachine).world.targets =
      [some ⟨0⟩, none, some ⟨0⟩] ∧ (run 9 unwoundMachine).world.targets = [some ⟨0⟩] ∧
    ((run 9 unwoundMachine).world.properties ⟨0⟩).slots =
      [⟨"a", .bool true, some ⟨0⟩⟩, ⟨"b", .bool true, some ⟨1⟩⟩] ∧
    [1, 2, 3].map (fun i => ((run 9 unwoundMachine).world.watcher? ⟨i⟩).map (·.cached)) =
      [some (.bool true), some (.bool true), some .null] := by
  have reachable : unwoundMachine.Reachable :=
    reachable_run 7 (reachable_start (reachable_initial ()) rfl () unwound)
  have due : unwoundMachine.frames =
      [.program (.call (.write ⟨0⟩ "a" (.bool true)) fun _ => .done)] := by with_unfolding_all rfl
  have panics : (run 8 unwoundMachine).panics? = some "stop" := by decide +kernel
  have none : (unwoundMachine.holding 8).sum = 0 := by decide +kernel
  have leaves := panics_undo_nothing reachable due (by decide +kernel) (by decide +kernel)
    (by decide +kernel) panics
  rw [none] at leaves
  exact ⟨reachable, leaves, by decide +kernel⟩

/-- A callback takes the entry off the stack that was there when the call was made, and panics. -/
def misplaced : Program Unit :=
  .call (.act (.newObject [("a", .null)])) fun _ =>
  .call (.act (.observe (.object ⟨0⟩))) fun _ =>
  .call (.subscribe fun _ => .done) fun _ =>
  .call (.watch ⟨0⟩ "a" fun _ =>
    .call (.act .leave) fun _ => .call (.panic "stop") fun _ => .done) fun _ =>
  .call (.enter ⟨0⟩) fun _ =>
  .call (.write ⟨0⟩ "a" (.bool true)) fun _ => .done

/-- The machine about to make the write. -/
def misplacedMachine : Machine Unit := run 5 (start { host := () } misplaced)

/-- That no callback holds an entry when it ends is not enough for the stack to be restored. -/
theorem dropped_entry_is_not_restored :
    ¬∀ (m₀ : Machine Unit) (p : Program Unit) (n : Nat) (message : String), m₀.Reachable →
      m₀.frames = [.program p] → (∀ i ≤ n, 0 < i → 1 < (run i m₀).frames.length) →
      (∀ i < n, (run i m₀).EndsClean (m₀.holding i)) → (m₀.holding n).sum = 0 →
      (run n m₀).panics? = some message → (run (n + 1) m₀).world.targets = m₀.world.targets := by
  intro all
  have reachable : misplacedMachine.Reachable :=
    reachable_run 5 (reachable_start (reachable_initial ()) rfl () misplaced)
  have due : misplacedMachine.frames =
      [.program (.call (.write ⟨0⟩ "a" (.bool true)) fun _ => .done)] := by with_unfolding_all rfl
  have restored := all misplacedMachine _ 3 "stop" reachable due (by decide +kernel)
    (by decide +kernel) (by decide +kernel) (by decide +kernel)
  have lost : (run 4 misplacedMachine).world.targets ≠ misplacedMachine.world.targets := by
    decide +kernel
  exact lost restored

end Machine
end DataBinding
