import Mathlib.Algebra.GroupWithZero.Nat
import DataBinding.Proofs.Reachable

/-! Who holds the entries on the stack of collecting subscribers. A scope has put one entry there
itself; every other entry is kept there by the host, because a program asked for it, and stays until a
program asks for its removal. While a call lasts, what it has put onto the stack so far lies above
the stack that the call found, as long as no callback removes what it did not put there. -/
namespace DataBinding.Machine

open World

variable {σ : Type}

/-- The next step puts a subscriber onto the stack. -/
def takes (m : Machine σ) : Bool :=
  match m.frames with
  | .program (.call (.enter s) _) :: _ => m.alive s
  | _ => false

/-- The next step takes an entry off the stack because a program asks for it. -/
def drops (m : Machine σ) : Bool :=
  match m.frames with
  | .program (.call (.act .leave) _) :: _ => true
  | _ => false

/-- The entries that each of the innermost frames holds after the next step, if they hold these
before it. A frame that ends passes on nothing, and a new one has none. -/
def guards (m : Machine σ) (held : List Nat) : List Nat :=
  if m.takes then held.modifyHead (· + 1)
  else if m.drops then held.modifyHead (· - 1)
  else List.replicate (m.step.frames.length - m.frames.length) 0 ++
    held.drop (m.frames.length - m.step.frames.length)

/-- The entries that the frames of a call hold `n` steps after it was made, frame by frame. -/
def holding (m : Machine σ) : Nat → List Nat
  | 0 => []
  | n + 1 => (run n m).guards (holding m n)

/-- A program that ends with the next step holds no entry. -/
def EndsClean (m : Machine σ) (held : List Nat) : Prop :=
  m.step.frames.length < m.frames.length → held.headD 0 = 0

/-- A program that takes an entry off the stack with the next step holds one. -/
def DropsOwn (m : Machine σ) (held : List Nat) : Prop := m.drops = true → 0 < held.headD 0

instance (m : Machine σ) (held : List Nat) : Decidable (m.EndsClean held) :=
  inferInstanceAs (Decidable (_ → _))

instance (m : Machine σ) (held : List Nat) : Decidable (m.DropsOwn held) :=
  inferInstanceAs (Decidable (_ → _))

section Shapes

/-- Calls have begun that are no scopes, and nothing else concerns the stack. -/
structure Begins (m m' : Machine σ) : Prop where
  frames : ∃ added : List (Frame σ), m'.frames = added ++ m.frames ∧ added.countP (·.scoped) = 0
  targets : m'.world.targets = m.world.targets

theorem begins_of_frames {m m' : Machine σ} (frames : m'.frames = m.frames)
    (targets : m'.world.targets = m.world.targets) : Begins m m' := ⟨⟨[], frames, rfl⟩, targets⟩

theorem begins_invoke (m : Machine σ) (c : CallbackId) (v : Value) : Begins m (m.invoke c v) := by
  rcases invoke_cases m c v with same | ⟨p, same⟩
  · rw [same]
    exact begins_of_frames rfl rfl
  · rw [same]
    exact ⟨⟨[.program p], rfl, rfl⟩, rfl⟩

theorem begins_write (m : Machine σ) (o : ObjectId) (key : String) (value : Value) :
    Begins m (m.write o key value) := by
  have targets := targets_of_custody (custody_write m.world o key value)
  unfold write
  split
  · rename_i w written
    rw [written] at targets
    exact begins_of_frames rfl targets
  · rename_i w d written
    rw [written] at targets
    exact ⟨⟨[.notifying _ _], rfl, rfl⟩, targets⟩

theorem begins_update (m : Machine σ) (s : SubscriberId) : Begins m (m.update s) := by
  obtain ⟨begun, frames, programs⟩ := frames_update m s
  refine ⟨⟨begun, frames, List.countP_eq_zero.mpr fun f member => ?_⟩,
    targets_of_custody (custody_update m s)⟩
  obtain ⟨p, rfl⟩ := programs f member
  exact Bool.false_ne_true

/-- What a step does to the frames and the stack. -/
inductive Shift (m : Machine σ) (top : Frame σ) (below : List (Frame σ)) (m' : Machine σ) :
    Prop where
  /-- The top frame ends, and takes its own entry off the stack if it has one. -/
  | ends (quiet : m.takes = false ∧ m.drops = false) (frames : m'.frames = below)
      (targets : m'.world.targets = m.world.targets.drop ([top].countP (·.scoped)))
  /-- It goes on when the calls have ended that begin now, each with its entry if it is a scope. -/
  | goes (quiet : m.takes = false ∧ m.drops = false) (frames : m'.frames = added ++ next :: below)
      (alike : next.scoped = top.scoped) (own : List (Option SubscriberId))
      (targets : m'.world.targets = own ++ m.world.targets)
      (entries : own.length = added.countP (·.scoped))
  | takes (takes : m.takes = true) (frames : m'.frames = next :: below)
      (alike : next.scoped = top.scoped) (targets : m'.world.targets = some s :: m.world.targets)
  | drops (quiet : m.takes = false) (drops : m.drops = true) (frames : m'.frames = next :: below)
      (alike : next.scoped = top.scoped) (targets : m'.world.targets = m.world.targets.tail)
  | broken (frames : m'.frames = [])

/-- Calls begin that are no scopes, above some that are none either. -/
private theorem shift_of_begins {m a m' : Machine σ} (quiet : m.takes = false ∧ m.drops = false)
    (begins : Begins a m') (frames : a.frames = added ++ next :: below)
    (plain : added.countP (·.scoped) = 0) (alike : next.scoped = top.scoped)
    (targets : a.world.targets = m.world.targets) : Shift m top below m' := by
  obtain ⟨⟨begun, shape, nobody⟩, same⟩ := begins
  have none : (begun ++ added).countP (·.scoped) = 0 := by rw [List.countP_append, nobody, plain]
  have grown : m'.frames = (begun ++ added) ++ next :: below := by
    rw [shape, frames, List.append_assoc]
  exact .goes quiet grown alike [] (same.trans targets) none.symm

/-- The frame on top goes on at once. -/
private theorem shift_of_same {m m' : Machine σ} (quiet : m.takes = false ∧ m.drops = false)
    (frames : m'.frames = next :: below) (alike : next.scoped = top.scoped)
    (targets : m'.world.targets = m.world.targets) : Shift m top below m' :=
  shift_of_begins quiet (begins_of_frames rfl rfl) (show m'.frames = [] ++ next :: below from frames)
    rfl alike targets

private theorem shift_request {m : Machine σ} (r : Request (Program σ)) (next : Reply → Program σ)
    (due : m.frames = .program (.call r next) :: below) :
    Shift m (.program (.call r next)) below (request { m with frames := below } next r) := by
  have alive : ∀ s, Machine.alive { m with frames := below } s = m.alive s := by
    simp [Machine.alive, due, Frame.keeps]
  cases r with
  | act a =>
    by_cases leaves : a = .leave
    · subst leaves
      exact .drops (by simp [takes, due]) (by simp [drops, due]) rfl rfl rfl
    · have quiet : m.takes = false ∧ m.drops = false := by
        cases a <;> simp_all [takes, drops]
      simp only [request]
      split
      · exact .broken rfl
      · rename_i w reply done
        exact shift_of_same quiet rfl rfl (targets_perform_of_ne done leaves)
  | subscribe callback => exact shift_of_same (by simp [takes, drops, due]) rfl rfl rfl
  | watch root key callback =>
    have targets := targets_of_custody
      (custody_watch m.world root key (.callback ⟨m.callbacks.size⟩))
    exact shift_of_same (by simp [takes, drops, due]) rfl rfl targets
  | listen n callback => exact shift_of_same (by simp [takes, drops, due]) rfl rfl rfl
  | register d s =>
    simp only [request]
    split <;> exact shift_of_same (by simp [takes, drops, due]) rfl rfl rfl
  | enter s =>
    simp only [request, alive]
    split
    · rename_i live
      exact .takes (by simp [takes, due, live]) rfl rfl rfl
    · rename_i gone
      exact shift_of_same (by simp [takes, drops, due, gone]) rfl rfl rfl
  | write o key v =>
    have begins := begins_write (push { m with frames := below } (.program (next .done))) o key v
    exact shift_of_begins (by simp [takes, drops, due]) begins (List.nil_append _).symm rfl rfl rfl
  | assign vm key v =>
    simp only [request]
    split
    · exact shift_of_same (by simp [takes, drops, due]) rfl rfl rfl
    · rename_i view _
      have begins := begins_write ((push { m with frames := below } (.program (next .done))).push
        (.keeping view.watchers)) view.data key v
      exact shift_of_begins (by simp [takes, drops, due]) begins List.singleton_append.symm rfl rfl
        rfl
  | notify d =>
    have shape : (notify (push { m with frames := below } (.program (next .done))) d).frames =
        [.notifying _ _] ++ .program (next .done) :: below := rfl
    exact .goes (by simp [takes, drops, due]) shape rfl [] rfl rfl
  | update s =>
    simp only [request]
    split
    · have begins := begins_update ((push { m with frames := below } (.program (next .done))).push
        (.keeping [s])) s
      exact shift_of_begins (by simp [takes, drops, due]) begins List.singleton_append.symm rfl rfl
        rfl
    · exact shift_of_same (by simp [takes, drops, due]) rfl rfl rfl
  | dispatch n =>
    have shape : (dispatch (push { m with frames := below } (.program (next .done))) n).frames =
        [.dispatching n _] ++ .program (next .done) :: below := rfl
    exact .goes (by simp [takes, drops, due]) shape rfl [] rfl rfl
  | input n text =>
    have shape : (request { m with frames := below } next (.input n text)).frames =
        [.dispatching n _] ++ .program (next .done) :: below := rfl
    exact .goes (by simp [takes, drops, due]) shape rfl [] rfl rfl
  | collecting s body =>
    simp only [request]
    split
    · have shape : (within (push { m with frames := below } (.program (next .done))) (some s)
          body).frames = [.program body, .scope] ++ .program (next .done) :: below := rfl
      exact .goes (by simp [takes, drops, due]) shape rfl [some s] rfl rfl
    · exact shift_of_same (by simp [takes, drops, due]) rfl rfl rfl
  | untracked body =>
    have shape : (request { m with frames := below } next (.untracked body)).frames =
        [.program body, .scope] ++ .program (next .done) :: below := rfl
    exact .goes (by simp [takes, drops, due]) shape rfl [none] rfl rfl
  | panic message => exact .broken rfl

theorem step_shift {m : Machine σ} (due : m.frames = top :: below) : Shift m top below m.step := by
  simp only [step, due]
  cases top with
  | program p =>
    cases p with
    | done => exact .ends (by simp [takes, drops, due]) rfl rfl
    | look | keep => exact shift_of_same (by simp [takes, drops, due]) rfl rfl rfl
    | call r next => exact shift_request r next due
  | notifying told rest =>
    have quiet : m.takes = false ∧ m.drops = false := by simp [takes, drops, due]
    cases rest with
    | nil => exact .ends quiet rfl rfl
    | cons s untold =>
      have begins := begins_update (push { m with frames := below } (.notifying told untold)) s
      exact shift_of_begins quiet begins (List.nil_append _).symm rfl rfl rfl
  | dispatching n rest =>
    have quiet : m.takes = false ∧ m.drops = false := by simp [takes, drops, due]
    cases rest with
    | nil => exact .ends quiet rfl rfl
    | cons l more =>
      cases l with
      | host c =>
        have begins := begins_invoke (push { m with frames := below } (.dispatching n more)) c
          (.string (m.world.controlValue n))
        exact shift_of_begins quiet begins (List.nil_append _).symm rfl rfl rfl
      | writeBack data key =>
        have begins := begins_write (push { m with frames := below } (.dispatching n more)) data key
          (.string (m.world.controlValue n))
        exact shift_of_begins quiet begins (List.nil_append _).symm rfl rfl rfl
  | scope => exact .ends (by simp [takes, drops, due]) rfl (List.drop_one).symm
  | keeping kept => exact .ends (by simp [takes, drops, due]) rfl rfl

end Shapes

/-- What the frames above `base` have put onto the stack lies above the entries that were there
before. -/
def Piled (ground : List (Option SubscriberId)) (base : List (Frame σ)) (held : List Nat)
    (m : Machine σ) : Prop :=
  ∃ above kept, m.frames = above ++ base ∧ above.length = held.length ∧
    m.world.targets = kept ++ ground ∧ kept.length = held.sum + above.countP (·.scoped)

/-- What the frames of a call have put onto the stack lies above the stack that the call found. -/
def Stacked (m₀ : Machine σ) (held : List Nat) (m : Machine σ) : Prop :=
  ∃ above caller kept, m.frames = above ++ [caller] ∧ caller.scoped = false ∧
    above.length = held.length ∧ m.world.targets = kept ++ m₀.world.targets ∧
    kept.length = held.sum + above.countP (·.scoped)

/-- Entries of new frames and of frames that have ended do not count. -/
private theorem sum_guards {m : Machine σ} (quiet : m.takes = false ∧ m.drops = false)
    (held : List Nat) : (m.guards held).sum =
      (held.drop (m.frames.length - m.step.frames.length)).sum := by
  simp [guards, quiet]

private theorem length_guards {m : Machine σ} (quiet : m.takes = false ∧ m.drops = false)
    (held : List Nat) : (m.guards held).length = m.step.frames.length - m.frames.length +
      (held.length - (m.frames.length - m.step.frames.length)) := by
  simp [guards, quiet]

/-- A program that changes the stack itself begins no call with that. -/
theorem quiet_of_longer {m : Machine σ} (due : m.frames = top :: below)
    (longer : m.frames.length < m.step.frames.length) : m.takes = false ∧ m.drops = false := by
  cases step_shift due with
  | ends quiet | goes quiet => exact quiet
  | broken frames' | takes _ frames' | drops _ _ frames' => simp [due, frames'] at longer

/-- The call is made by this step. -/
theorem piled_made {m : Machine σ} (due : m.frames = top :: below)
    (quiet : m.takes = false ∧ m.drops = false) (made : m.frames.length ≤ m.step.frames.length) :
    ∃ caller, caller.scoped = top.scoped ∧
      Piled m.world.targets (caller :: below) (m.guards []) m.step := by
  cases step_shift due with
  | ends _ frames' | broken frames' =>
    simp only [due, frames', List.length_cons, List.length_nil] at made
    omega
  | takes takes | drops _ takes => simp [quiet] at takes
  | @goes added caller _ frames' alike own targets' entries =>
    refine ⟨caller, alike, added, own, frames', ?_, targets', ?_⟩
    · rw [length_guards quiet, due, frames']
      simp
    · rw [sum_guards quiet, entries]
      simp

theorem Piled.step {m : Machine σ} (piled : Piled ground base held m)
    (inside : base.length < m.frames.length) (clean : m.EndsClean held) (own : m.DropsOwn held)
    (busy : m.step.frames ≠ []) : Piled ground base (m.guards held) m.step := by
  obtain ⟨above, kept, frames, length, same, sum⟩ := piled
  obtain ⟨top, rest, rfl⟩ : ∃ top rest, above = top :: rest := by
    cases above with
    | nil => simp [frames] at inside
    | cons top rest => exact ⟨top, rest, rfl⟩
  obtain ⟨k, ks, rfl⟩ := List.exists_cons_of_length_eq_add_one length.symm
  have due : m.frames = top :: (rest ++ base) := frames
  rw [List.length_cons, List.length_cons, Nat.add_right_cancel_iff] at length
  rw [List.sum_cons, List.countP_cons] at sum
  cases step_shift due with
  | broken frames' => exact absurd frames' busy
  | ends quiet frames' targets' =>
    have shorter : m.frames.length - m.step.frames.length = 1 := by rw [due, frames']; simp
    obtain rfl : k = 0 := clean (by rw [due, frames']; simp)
    have inside : [top].countP (·.scoped) ≤ kept.length := by
      rw [List.countP_singleton]
      omega
    refine ⟨rest, kept.drop ([top].countP (·.scoped)), frames', ?_, ?_, ?_⟩
    · rw [length_guards quiet, shorter, due, frames', List.length_cons, length]
      simp
    · rw [targets', same, List.drop_append_of_le_length inside]
    · rw [sum_guards quiet, shorter, List.length_drop, sum, List.countP_singleton]
      simp only [List.drop_one, List.tail_cons]
      omega
  | @goes added next quiet frames' alike own targets' entries =>
    have longer : m.frames.length - m.step.frames.length = 0 := by
      rw [due, frames']
      simp
    have shape : m.step.frames = (added ++ next :: rest) ++ base := by simp [frames']
    refine ⟨added ++ next :: rest, own ++ kept, shape, ?_, ?_, ?_⟩
    · rw [length_guards quiet, longer, due, frames']
      simp [length]
    · rw [targets', same, List.append_assoc]
    · rw [sum_guards quiet, longer, List.length_append, entries, sum,
        List.countP_append, List.countP_cons, alike, List.drop_zero, List.sum_cons]
      omega
  | @takes next s takes frames' alike targets' =>
    refine ⟨next :: rest, some s :: kept, frames', ?_, ?_, ?_⟩
    · simp [guards, takes, length]
    · rw [targets', same, List.cons_append]
    · rw [List.length_cons, sum, List.countP_cons, alike]
      simp [guards, takes]
      omega
  | @drops next quiet drops frames' alike targets' =>
    have positive : 0 < k := own drops
    have inside : kept ≠ [] := by
      rintro rfl
      simp at sum
      omega
    refine ⟨next :: rest, kept.tail, frames', ?_, ?_, ?_⟩
    · simp [guards, quiet, drops, length]
    · rw [targets', same, List.tail_append_of_ne_nil inside]
    · rw [List.length_tail, sum, List.countP_cons, alike]
      simp [guards, quiet, drops]
      omega

/-- From the step that makes a call up to the one with which it returns, the stack that the call found
lies below what its frames hold. -/
theorem piled_run {m₀ : Machine σ} (due : m₀.frames = top :: below)
    (quiet : m₀.takes = false ∧ m₀.drops = false) (begun : 0 < n)
    (lasts : ∀ i < n, 0 < i → m₀.frames.length < (run i m₀).frames.length)
    (last : m₀.frames.length ≤ (run n m₀).frames.length)
    (clean : ∀ i < n, (run i m₀).EndsClean (m₀.holding i))
    (own : ∀ i < n, (run i m₀).DropsOwn (m₀.holding i)) :
    ∃ caller, caller.scoped = top.scoped ∧
      Piled m₀.world.targets (caller :: below) (m₀.holding n) (run n m₀) := by
  induction begun with
  | refl =>
    rw [run_succ] at last ⊢
    exact piled_made due quiet last
  | @step n begun ih =>
    have inside := lasts n (Nat.lt_succ_self n) begun
    obtain ⟨caller, alike, piled⟩ := ih (fun i early => lasts i (Nat.lt_succ_of_lt early))
      (Nat.le_of_lt inside) (fun i early => clean i (Nat.lt_succ_of_lt early))
      (fun i early => own i (Nat.lt_succ_of_lt early))
    rw [run_succ] at last ⊢
    have busy : (run n m₀).step.frames ≠ [] := by
      intro none
      simp [due, none] at last
    refine ⟨caller, alike, piled.step ?_ (clean n (Nat.lt_succ_self n))
      (own n (Nat.lt_succ_self n)) busy⟩
    simpa [due] using inside

/-- While a call of a program lasts that is called by nobody, the stack that it found lies below
what its frames hold. -/
theorem stacked_run {m₀ : Machine σ} (due : m₀.frames = [.program p])
    (lasts : ∀ i ≤ n, 0 < i → 1 < (run i m₀).frames.length)
    (clean : ∀ i < n, (run i m₀).EndsClean (m₀.holding i))
    (own : ∀ i < n, (run i m₀).DropsOwn (m₀.holding i)) :
    Stacked m₀ (m₀.holding n) (run n m₀) := by
  cases n with
  | zero => exact ⟨[], .program p, [], due, rfl, rfl, rfl, rfl⟩
  | succ n =>
    have first := lasts 1 (Nat.succ_le_succ (Nat.zero_le n)) Nat.one_pos
    rw [run_succ] at first
    have quiet := quiet_of_longer due (by rw [due]; exact first)
    obtain ⟨caller, plain, above, kept, frames, length, targets, sum⟩ :=
      piled_run due quiet (Nat.succ_pos n)
        (fun i early => by rw [due]; exact lasts i (Nat.le_of_lt early))
        (by rw [due]; exact Nat.le_of_lt (lasts (n + 1) (Nat.le_refl _) (Nat.succ_pos n))) clean own
    exact ⟨above, caller, kept, frames, plain, length, targets, sum⟩

end DataBinding.Machine
