import DataBinding.Proofs.Reachable

/-! Calls that work through a list: a notification, with those that are to be told, and a dispatch,
with the listeners that are to be run. Their list is fixed when they begin. While one of its items is
handled other calls lie above, calls of the same kind among them, and each of them works through a
list of its own; so what a call has handled so far, followed by what it still has to handle, is at
every moment the list that it began with. -/
namespace DataBinding.Machine

variable {σ α : Type}

/-- A call lasts through the `n`-th step: up to then something is in progress above what it returns
to. -/
def Ongoing (m : Machine σ) (base : List (Frame σ)) (n : Nat) : Prop :=
  ∀ i ≤ n, 0 < i → base.length < (run i m).frames.length

/-- A call returns with the `n`-th step. One that is broken off does not return. -/
def ReturnsTo (m : Machine σ) (base : List (Frame σ)) (n : Nat) : Prop :=
  0 < n ∧ (∀ i < n, 0 < i → base.length < (run i m).frames.length) ∧ (run n m).frames = base

/-- The items that a call has handled in the first `n` steps, where `next?` is what it handles with
the next step. -/
def handled (next? : Machine σ → Option α) (m : Machine σ) (n : Nat) : List α :=
  (List.range n).filterMap fun i => next? (run i m)

theorem handled_succ (next? : Machine σ → Option α) (m : Machine σ) (n : Nat) :
    handled next? m (n + 1) = handled next? m n ++ (next? (run n m)).toList := by
  rw [handled, List.range_succ, List.filterMap_append]
  cases found : next? (run n m) <;> simp [handled, found]

/-- A call above `base` that works through a list from its front: `frame items` is the call with
these items still to be handled, and `next?` what it handles with the next step. -/
structure WorksThrough (frame : List α → Frame σ) (base : List (Frame σ))
    (next? : Machine σ → Option α) : Prop where
  /-- It returns when there is nothing left. -/
  ends {m : Machine σ} : m.frames = frame [] :: base → m.step.frames = base
  /-- Otherwise it goes on to the first item, for which calls may begin. -/
  goes {m : Machine σ} : m.frames = frame (x :: items) :: base →
    ∃ begun, m.step.frames = begun ++ frame items :: base
  due {m : Machine σ} : m.frames = frame items :: base → next? m = items.head?
  /-- It waits for the calls above it. -/
  waits {m : Machine σ} : m.frames = first :: above ++ frame items :: base → next? m = none

/-- Below the top frame lie more frames than a call returns to that waits further down. -/
theorem length_ne_of_above {m : Machine σ} (due : m.frames = top :: below)
    (waiting : m.frames = first :: above ++ f :: base) : below.length ≠ base.length := by
  have same := congrArg List.length (due.symm.trans waiting)
  simp only [List.length_append, List.length_cons] at same
  omega

namespace WorksThrough

variable {frame : List α → Frame σ} {base : List (Frame σ)} {next? : Machine σ → Option α}
  {m : Machine σ}

/-- A step handles the first of the items that are left, or none of them. -/
theorem step (works : WorksThrough frame base next?) (sound : m.Sound)
    (frames : m.frames = above ++ frame items :: base) (lasts : base.length < m.step.frames.length) :
    ∃ above' rest, m.step.frames = above' ++ frame rest :: base ∧
      (next? m).toList ++ rest = items := by
  cases above with
  | nil =>
    cases items with
    | nil =>
      rw [works.ends frames] at lasts
      exact absurd lasts (Nat.lt_irrefl _)
    | cons x items =>
      obtain ⟨begun, frames'⟩ := works.goes frames
      exact ⟨begun, items, frames', by simp [works.due frames]⟩
  | cons first above =>
    have unbroken : m.step.frames ≠ [] := by
      intro none
      simp [none] at lasts
    obtain ⟨above', frames'⟩ := (step_turn fun _ => sound.known).stays_above frames
      fun none => absurd none unbroken
    exact ⟨above', items, frames', by simp [works.waits frames]⟩

/-- With the step that returns nothing is left. -/
theorem returns (works : WorksThrough frame base next?) (sound : m.Sound)
    (frames : m.frames = above ++ frame items :: base) (returned : m.step.frames = base)
    (called : base ≠ []) : (next? m).toList = items := by
  cases above with
  | nil =>
    cases items with
    | nil => simp [works.due frames]
    | cons x items =>
      obtain ⟨begun, frames'⟩ := works.goes frames
      have longer := congrArg List.length (frames'.symm.trans returned)
      simp only [List.length_append, List.length_cons] at longer
      omega
  | cons first above =>
    obtain ⟨above', frames'⟩ := (step_turn fun _ => sound.known).stays_above frames
      fun none => absurd (returned.symm.trans none) called
    have longer := congrArg List.length (frames'.symm.trans returned)
    simp only [List.length_append, List.length_cons] at longer
    omega

/-- While the call lasts it lies above `base`, and what it has handled followed by what is left is
what it began with. -/
theorem along (works : WorksThrough frame base next?) (reachable : m.Reachable)
    (quiet : next? m = none) (begins : m.step.frames = frame items :: base) (begun : 0 < n)
    (lasts : m.Ongoing base n) : ∃ above rest, (run n m).frames = above ++ frame rest :: base ∧
      handled next? m n ++ rest = items := by
  induction begun with
  | refl =>
    refine ⟨[], items, (congrArg Machine.frames (run_succ 0 m)).trans begins, ?_⟩
    simp [handled, run, quiet]
  | @step n _ ih =>
    obtain ⟨above, rest, frames, before⟩ := ih fun i early => lasts i (Nat.le_succ_of_le early)
    have last := lasts (n + 1) (Nat.le_refl _) (Nat.succ_pos n)
    rw [run_succ] at last
    obtain ⟨above', rest', frames', same⟩ :=
      works.step (reachable_sound (reachable_run n reachable)) frames last
    refine ⟨above', rest', (congrArg Machine.frames (run_succ n m)).trans frames', ?_⟩
    rw [handled_succ, List.append_assoc, same, before]

/-- A call that returns has handled all that it began with, each item once and in order. -/
theorem all (works : WorksThrough frame base next?) (reachable : m.Reachable)
    (quiet : next? m = none) (begins : m.step.frames = frame items :: base) (called : base ≠ [])
    (returns : m.ReturnsTo base n) : handled next? m n = items := by
  obtain ⟨positive, lasts, returned⟩ := returns
  obtain ⟨n, rfl⟩ := Nat.exists_eq_add_one.mpr positive
  have begun : 0 < n := by
    rw [Nat.pos_iff_ne_zero]
    rintro rfl
    have longer := congrArg List.length (begins.symm.trans
      ((congrArg Machine.frames (run_succ 0 m)).symm.trans returned))
    simp at longer
  obtain ⟨above, rest, frames, before⟩ := works.along reachable quiet begins begun
    fun i early => lasts i (Nat.lt_succ_of_le early)
  rw [run_succ] at returned
  have last := works.returns (reachable_sound (reachable_run n reachable)) frames returned called
  rw [handled_succ, last, before]

end WorksThrough

end DataBinding.Machine
