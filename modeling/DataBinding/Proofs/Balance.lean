import DataBinding.Proofs.Panics

/-! The stack of collecting subscribers, call by call. Whoever takes an entry off that it has put
there, and has none left when it ends, leaves the stack to others as it was; so a call finds at its
end what it found at its beginning, however deep its callbacks go and whether it returns or a panic
comes up through it. In between, a read is attributed to whoever is on top. -/
namespace DataBinding

namespace World

/-- A read of a tracked property adds an entry for the collecting subscriber to the property's list,
if there is one, and changes nothing else. -/
theorem read_of_tracked {w : World} (found : w.slot? o key = some slot) (tracked : slot.dep = some d) :
    w.read o key =
      ({ w with deps := w.deps.modify d.index (· ++ w.target?.toList) }, slot.value) := by
  have listed : (w.properties o).dep? key = some d := Option.bind_eq_some_iff.mpr ⟨slot, found, tracked⟩
  have same : w.deps.modify d.index (· ++ []) = w.deps := by
    refine Arena.ext_get? fun i => ?_
    simp [Arena.get?_modify]
  simp only [read, listed, depend, peek_of_slot found]
  cases w.target? with
  | none => simp only [Option.toList_none, same]
  | some s => rfl

end World

namespace Machine
open World

variable {σ : Type}

/-- A panic comes up through some frames before it comes up through those below them. -/
theorem unwind_append (above base : List (Frame σ)) (w : World) :
    unwind (above ++ base) w = unwind base (unwind above w) := List.foldl_append

/-- What is left of the stack when a panic has come up through frames and each has dropped the entries
that it holds, as many as these, and then its own one, if it is a scope. -/
def dropHeld : List (Frame σ) → List Nat → List (Option SubscriberId) → List (Option SubscriberId)
  | f :: above, k :: held, targets =>
    dropHeld above held (if f.scoped then (targets.drop k).tail else targets.drop k)
  | _, _, targets => targets

theorem dropHeld_eq {above : List (Frame σ)} {held : List Nat} (same : above.length = held.length)
    (targets : List (Option SubscriberId)) :
    dropHeld above held targets = targets.drop (held.sum + above.countP (·.scoped)) := by
  induction above generalizing held targets with
  | nil =>
    obtain rfl := List.length_eq_zero_iff.mp same.symm
    rfl
  | cons f above ih =>
    obtain ⟨k, held, rfl⟩ := List.exists_cons_of_length_eq_add_one same.symm
    rw [dropHeld, ih (Nat.add_right_cancel same), List.sum_cons, List.countP_cons]
    split
    · rw [← List.drop_one, List.drop_drop, List.drop_drop]
      congr 1
      omega
    · rw [List.drop_drop]
      congr 1
      omega

/-- Where frames hold nothing, the scopes among them let go of their own entries, and nothing else
goes. -/
theorem dropHeld_of_none {above : List (Frame σ)} {held : List Nat}
    (same : above.length = held.length) (none : held.sum = 0) (w : World) :
    dropHeld above held w.targets = (unwind above w).targets := by
  rw [dropHeld_eq same, none, Nat.zero_add, unwind_eq]

/-- In the first `n` steps of a call, its callbacks take nothing off the stack but what they have put
there themselves, and have taken off all of that when they return. -/
def Disciplined (m : Machine σ) (n : Nat) : Prop :=
  ∀ i < n, (run i m).DropsOwn (m.holding i) ∧ (run i m).EndsClean (m.holding i)

instance (m : Machine σ) (n : Nat) : Decidable (m.Disciplined n) :=
  inferInstanceAs (Decidable (∀ i < n, _ ∧ _))

/-- What the call that begins with the next step does to the stack, and to whom reads are
attributed. -/
structure KeepsStack (m : Machine σ) : Prop where
  /-- A call that returns leaves the stack entry for entry as it found it. -/
  returns : 0 < n → (∀ i < n, 0 < i → m.frames.length < (run i m).frames.length) →
    (run n m).frames.length = m.frames.length → m.Disciplined n →
    (run n m).world.targets = m.world.targets
  /-- So does one through which a panic comes up, from whatever depth, as soon as its frames have
  dropped what they hold. If they hold nothing, the panic itself leaves the stack so: what scopes have
  put onto it goes with them. -/
  panics : (∀ i ≤ n, 0 < i → m.frames.length < (run i m).frames.length) →
    m.Disciplined n → (run n m).panics? = some message →
    ∃ above base, (run n m).frames = above ++ base ∧ base.length = m.frames.length ∧
      dropHeld above (m.holding n) (run n m).world.targets = m.world.targets ∧
      (run (n + 1) m).world = unwind base (unwind above (run n m).world) ∧
      ((m.holding n).sum = 0 → (unwind above (run n m).world).targets = m.world.targets)
  /-- Wherever a tracked property is read, the subscriber on top of the stack gets an entry in its
  list, if the top is one, and nothing else changes. -/
  reads : ∀ {w : World} {o key slot d}, w.slot? o key = some slot → slot.dep = some d →
    w.read o key = ({ w with deps := w.deps.modify d.index (· ++ w.target?.toList) }, slot.value)
  /-- When a callback reads, that is all that the step does. -/
  reading : m.frames = .program (.call (.act (.read o key)) next) :: below →
    m.world.slot? o key = some slot → slot.dep = some d →
    m.step = { m with
      world := { m.world with deps := m.world.deps.modify d.index (· ++ m.world.target?.toList) }
      frames := .program (next (.value slot.value)) :: below } ∧
    m.step.world.entries d = m.world.entries d ++ m.world.target?.toList

section Calls

variable {m : Machine σ}

/-- A panic comes up through all frames. -/
private theorem step_of_panics (panics : m.panics? = some message) :
    m.step.world = unwind m.frames m.world := by
  unfold panics? at panics
  split at panics
  · rename_i due
    simp only [step, due, request]
    rfl
  · cases panics

/-- What the frames of a call hold is all that lies above what the call found. -/
private theorem Piled.dropped (piled : Piled ground base held m) :
    ∃ above, m.frames = above ++ base ∧ above.length = held.length ∧
      dropHeld above held m.world.targets = ground := by
  obtain ⟨above, kept, frames, same, targets, sum⟩ := piled
  refine ⟨above, frames, same, ?_⟩
  rw [dropHeld_eq same, targets, ← sum]
  exact List.drop_left

private theorem piled_of_disciplined (quiet : m.takes = false ∧ m.drops = false) (begun : 0 < n)
    (lasts : ∀ i < n, 0 < i → m.frames.length < (run i m).frames.length)
    (last : m.frames.length ≤ (run n m).frames.length) (busy : m.frames ≠ [])
    (disciplined : m.Disciplined n) : ∃ base : List (Frame σ), base.length = m.frames.length ∧
      Piled m.world.targets base (m.holding n) (run n m) := by
  obtain ⟨top, below, due⟩ := List.exists_cons_of_ne_nil busy
  obtain ⟨caller, -, piled⟩ := piled_run due quiet begun lasts last
    (fun i early => (disciplined i early).2) fun i early => (disciplined i early).1
  exact ⟨caller :: below, by simp [due], piled⟩

private theorem returns_of_disciplined (quiet : m.takes = false ∧ m.drops = false) (begun : 0 < n)
    (lasts : ∀ i < n, 0 < i → m.frames.length < (run i m).frames.length)
    (returned : (run n m).frames.length = m.frames.length) (busy : m.frames ≠ [])
    (disciplined : m.Disciplined n) : (run n m).world.targets = m.world.targets := by
  obtain ⟨base, length, piled⟩ :=
    piled_of_disciplined quiet begun lasts (Nat.le_of_eq returned.symm) busy disciplined
  obtain ⟨above, kept, frames, same, targets, sum⟩ := piled
  have none : above = [] := by
    have total := congrArg List.length frames
    rw [List.length_append] at total
    exact List.length_eq_zero_iff.mp (by omega)
  subst none
  have empty : m.holding n = [] := List.length_eq_zero_iff.mp same.symm
  rw [empty] at sum
  rw [targets, List.length_eq_zero_iff.mp sum, List.nil_append]

private theorem panics_of_disciplined (quiet : m.takes = false ∧ m.drops = false)
    (lasts : ∀ i ≤ n, 0 < i → m.frames.length < (run i m).frames.length) (busy : m.frames ≠ [])
    (disciplined : m.Disciplined n) (panics : (run n m).panics? = some message) :
    ∃ above base, (run n m).frames = above ++ base ∧ base.length = m.frames.length ∧
      dropHeld above (m.holding n) (run n m).world.targets = m.world.targets ∧
      (run (n + 1) m).world = unwind base (unwind above (run n m).world) ∧
      ((m.holding n).sum = 0 → (unwind above (run n m).world).targets = m.world.targets) := by
  obtain ⟨base, length, above, frames, same, dropped⟩ : ∃ base : List (Frame σ),
      base.length = m.frames.length ∧ ∃ above, (run n m).frames = above ++ base ∧
        above.length = (m.holding n).length ∧
        dropHeld above (m.holding n) (run n m).world.targets = m.world.targets := by
    rcases Nat.eq_zero_or_pos n with rfl | begun
    · exact ⟨m.frames, rfl, [], rfl, rfl, rfl⟩
    · obtain ⟨base, length, piled⟩ := piled_of_disciplined quiet begun
        (fun i early => lasts i (Nat.le_of_lt early))
        (Nat.le_of_lt (lasts n (Nat.le_refl n) begun)) busy disciplined
      exact ⟨base, length, piled.dropped⟩
  refine ⟨above, base, frames, length, dropped, ?_, fun none => ?_⟩
  · rw [run_succ, step_of_panics panics, frames, unwind_append]
  · rw [← dropHeld_of_none same none, dropped]

end Calls

/-- Whatever a program calls, and whatever a call in progress calls for it, the stack is in the end as
it was before, when the call has returned and when a panic has come up through it and its frames have
dropped what they hold. Only the two requests are left out by which a program has the host put an
entry onto the stack, for as long as it likes, and take it off. -/
theorem calls_keep_stack {m : Machine σ} (reachable : m.Reachable)
    (quiet : m.takes = false ∧ m.drops = false) (busy : m.frames ≠ []) : KeepsStack m where
  returns begun lasts returned := returns_of_disciplined quiet begun lasts returned busy
  panics lasts := panics_of_disciplined quiet lasts busy
  reads := read_of_tracked
  reading {below o key next slot d} due found tracked := by
    have inside : d.index < m.world.deps.size := (reachable_sound reachable).world.dep found tracked
    have stepped : m.step = { m with
        world := { m.world with deps := m.world.deps.modify d.index (· ++ m.world.target?.toList) }
        frames := .program (next (.value slot.value)) :: below } := by
      simp only [step, due, request, World.perform, read_of_tracked found tracked, push]
    refine ⟨stepped, ?_⟩
    rw [stepped]
    have listed : m.world.deps.get? d.index = some m.world.deps.cells[d.index] :=
      Array.getElem?_eq_getElem inside
    simp [entries, Arena.get?_modify, listed]

/-- A subscriber collects while a property is written twice. The callback of a watcher puts it onto
the stack once more, reads another property, takes it off and writes that property under cover; the
callback that is called then reads the first property again or panics, in a scope in which the
subscriber collects again or after it has put the subscriber onto the stack itself. -/
def nesting : Program Unit :=
  .call (.act (.newObject [("a", .null), ("b", .null)])) fun _ =>
  .call (.act (.observe (.object ⟨0⟩))) fun _ =>
  .call (.subscribe fun _ => .done) fun _ =>
  .call (.watch ⟨0⟩ "a" fun v =>
    .call (.enter ⟨0⟩) fun _ => .call (.act (.read ⟨0⟩ "b")) fun _ => .call (.act .leave) fun _ =>
    .call (.untracked (.call (.write ⟨0⟩ "b" v) fun _ => .done)) fun _ => .done) fun _ =>
  .call (.watch ⟨0⟩ "b" fun
    | .null => .call (.collecting ⟨0⟩ (.call (.panic "stop") fun _ => .done)) fun _ => .done
    | .bool false => .call (.enter ⟨0⟩) fun _ => .call (.panic "stop") fun _ => .done
    | _ => .call (.act (.read ⟨0⟩ "a")) fun _ => .done) fun _ =>
  .call (.enter ⟨0⟩) fun _ =>
  .call (.write ⟨0⟩ "a" (.bool true)) fun _ =>
  .call (.write ⟨0⟩ "a" .null) fun _ => .done

/-- The machine about to make the first write. -/
def nestingMachine : Machine Unit := run 6 (start { host := () } nesting)

/-- The machine about to make the second write, through which a panic comes up. -/
def renestingMachine : Machine Unit := run 17 nestingMachine

/-- The machine about to make a third write, when the next program has been started. -/
def holdingMachine : Machine Unit :=
  start (run 10 renestingMachine) (.call (.write ⟨0⟩ "a" (.bool false)) fun _ => .done)

/-- All three writes leave the stack as it was: the one that returns, the one that panics with nobody
holding anything, from inside two scopes with an entry each, and, once its frames have dropped what
they hold, the one that panics in a callback with an entry above that of the scope around it. In
between, a callback's own read is attributed to the subscriber on top, and the one under cover to
nobody. -/
theorem nested_writes_keep_stack :
    KeepsStack nestingMachine ∧ KeepsStack renestingMachine ∧ KeepsStack holdingMachine ∧
    nestingMachine.world.targets = [some ⟨0⟩] ∧
    (run 4 nestingMachine).world.targets = [some ⟨0⟩, some ⟨0⟩] ∧
    (run 11 nestingMachine).world.targets = [none, some ⟨0⟩] ∧
    renestingMachine.world.targets = [some ⟨0⟩] ∧
    [0, 1].map (fun d => renestingMachine.world.entries ⟨d⟩) = [[⟨1⟩], [⟨2⟩, ⟨0⟩]] ∧
    (run 9 renestingMachine).panics? = some "stop" ∧
    (run 9 renestingMachine).world.targets = [some ⟨0⟩, none, some ⟨0⟩] ∧
    (∃ above base, (run 9 renestingMachine).frames = above ++ base ∧ base.length = 1 ∧
      (unwind above (run 9 renestingMachine).world).targets = [some ⟨0⟩]) ∧
    (run 9 holdingMachine).panics? = some "stop" ∧
    holdingMachine.holding 9 = [1, 0, 0, 0, 0, 0] ∧
    (run 9 holdingMachine).world.targets = [some ⟨0⟩, none, some ⟨0⟩] ∧
    ∃ above base, (run 9 holdingMachine).frames = above ++ base ∧ base.length = 1 ∧
      dropHeld above (holdingMachine.holding 9) (run 9 holdingMachine).world.targets =
        [some ⟨0⟩] := by
  have reachable : nestingMachine.Reachable :=
    reachable_run 6 (reachable_start (reachable_initial ()) rfl () nesting)
  have again : renestingMachine.Reachable := reachable_run 17 reachable
  have idle : (run 10 renestingMachine).idle = true := by decide +kernel
  have first := calls_keep_stack reachable (by decide +kernel)
    (List.ne_nil_of_length_pos (by decide +kernel))
  have second := calls_keep_stack again (by decide +kernel)
    (List.ne_nil_of_length_pos (by decide +kernel))
  have third := calls_keep_stack
    (show holdingMachine.Reachable from reachable_start (reachable_run 10 again) idle () _)
    (by decide +kernel) (List.ne_nil_of_length_pos (by decide +kernel))
  have before : nestingMachine.world.targets = [some ⟨0⟩] := by decide +kernel
  have between : renestingMachine.world.targets = [some ⟨0⟩] :=
    (first.returns (by decide) (by decide +kernel) (by decide +kernel) (by decide +kernel)).trans before
  have last : holdingMachine.world.targets = [some ⟨0⟩] := by decide +kernel
  have panics : (run 9 renestingMachine).panics? = some "stop" := by decide +kernel
  have stops : (run 9 holdingMachine).panics? = some "stop" := by decide +kernel
  have alone : renestingMachine.frames.length = 1 := by decide +kernel
  obtain ⟨above, base, frames, length, -, -, unwound⟩ :=
    second.panics (by decide +kernel) (by decide +kernel) panics
  have restored := (unwound (by decide +kernel)).trans between
  obtain ⟨above', base', frames', length', dropped, -⟩ :=
    third.panics (by decide +kernel) (by decide +kernel) stops
  exact ⟨first, second, third, before, by decide +kernel, by decide +kernel, between,
    by decide +kernel, panics, by decide +kernel, ⟨above, base, frames, length.trans alone, restored⟩,
    stops, by decide +kernel, by decide +kernel, above', base', frames', length', dropped.trans last⟩

end Machine
end DataBinding
