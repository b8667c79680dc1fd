import Mathlib
import DataBinding.Proofs.Circuits

/-! Write-back cycles end. A value that is identical to itself spreads through a circuit to
the properties that it changes and no further: each takes it once, and each of their
watchers receives it once, however the circuit closes on itself. A NaN that is written back
to where it came from is new there each time, and the call that stored it never returns. -/
namespace DataBinding

variable {σ : Type}

/-- Identical numbers are identical to the same numbers. -/
theorem Number.same_congr {a b : Number} (same : a.same b = true) (n : Number) :
    a.same n = b.same n := by
  simp only [Number.same, Bool.and_eq_true, Bool.or_eq_true, beq_iff_eq, Bool.not_eq_true'] at same
  obtain ⟨⟨here, there⟩, bits | ⟨zero, zero'⟩⟩ := same
  · obtain rfl : a = b := by cases a; cases b; simp_all
    rfl
  · have both : ∀ m : Number, m.isNaN = false → m.isZero = true →
        m.same n = (!n.isNaN && n.isZero) := by
      intro m number zero
      by_cases nought : n.isZero = true
      · simp [Number.same, number, zero, nought]
      · have apart : m.bits ≠ n.bits := by
          intro bits
          obtain rfl : m = n := by cases m; cases n; simp_all
          exact nought zero
        simp [Number.same, number, nought, apart]
    rw [both a here zero, both b there zero']

namespace Value

/-- A NaN is identical to nothing. -/
theorem same_of_isNaN {a : Value} (nan : a.isNaN = true) (b : Value) : a.same b = false := by
  cases a <;> simp only [isNaN, Bool.false_eq_true] at nan
  cases b <;> simp [same, Number.same, nan]

theorem same_congr {a b : Value} (same : a.same b = true) (v : Value) : a.same v = b.same v := by
  cases a <;> cases b <;> simp only [Value.same, Bool.false_eq_true, beq_iff_eq] at same
  case number.number m n =>
    cases v <;> simp only [Value.same]
    exact Number.same_congr same _
  all_goals simp_all

/-- Whoever remembers a value takes for new what is new to a property with that value. -/
theorem same_of_agrees {a b v : Value} (agrees : a.Agrees b) (news : b.same v = false) :
    a.same v = false := by
  rcases agrees with same | ⟨nan, -⟩
  · exact (same_congr same v).trans news
  · exact same_of_isNaN nan v

end Value

namespace World

theorem changes_iff {w : World} {p : Place} :
    w.changes p.1 p.2 v = true ↔ ∃ u, w.value? p = some u ∧ u.same v = false := by
  unfold changes value?
  cases w.slot? p.1 p.2 <;> simp

theorem changes_congr {w w' : World} {p : Place} (same : w'.value? p = w.value? p) (v : Value) :
    w'.changes p.1 p.2 v = w.changes p.1 p.2 v := by
  rw [Bool.eq_iff_iff, changes_iff, changes_iff, same]

theorem changes_of_held {w : World} {p : Place} (held : w.value? p = some u)
    (same : u.same v = true) : w.changes p.1 p.2 v = false := by
  rw [Bool.eq_false_iff, Ne, changes_iff]
  rintro ⟨u', held', news⟩
  obtain rfl := Option.some.inj (held.symm.trans held')
  rw [same] at news
  cases news

end World

namespace Circuit
open World Machine

/-- The properties to which a value spreads that is stored in the first one: it changes them,
and they are the first one or a target of a watcher of one of them. -/
inductive Affected (c : Circuit) (w : World) (first : Place) (v : Value) : Place → Prop where
  | stored (changes : w.changes first.1 first.2 v = true) : Affected c w first v first
  | through (affected : Affected c w first v p) (watcher : s ∈ c.watchers)
      (watches : w.Watches s p) (target : q ∈ c.targets s)
      (changes : w.changes q.1 q.2 v = true) : Affected c w first v q

theorem Affected.changes {c : Circuit} {w : World} (affected : c.Affected w first v p) :
    w.changes p.1 p.2 v = true := by
  cases affected with
  | stored changes => exact changes
  | through _ _ _ _ changes => exact changes

/-- How far a value has spread: which properties have taken it, which watchers have received
it, and what the errands still have to do for that. -/
structure Spreads (c : Circuit) (origin : World) (first : Place) (v : Value) (w : World)
    (ts : List Errand) (fired : List SubscriberId) : Prop where
  values (p : Place) : w.value? p = origin.value? p ∨
    c.Affected origin first v p ∧ w.value? p = some v
  begun : w.changes first.1 first.2 v = false ∨ first ∈ ts.flatMap Errand.due
  due : q ∈ ts.flatMap Errand.due → origin.changes q.1 q.2 v = true → c.Affected origin first v q
  waits : s ∈ ts.flatMap Errand.waits →
    s ∈ c.watchers ∧ ∃ p, origin.Watches s p ∧ c.Affected origin first v p
  unfired : s ∈ c.watchers → s ∉ fired → w.watcher? s = origin.watcher? s ∧
    ∀ p, origin.Watches s p → w.value? p = origin.value? p ∨ s ∈ ts.flatMap Errand.waits
  received : s ∈ fired → s ∈ c.watchers ∧ (∃ p, origin.Watches s p ∧ c.Affected origin first v p) ∧
    (∃ x, w.watcher? s = some x ∧ x.cached = v) ∧
    ∀ q ∈ c.targets s, w.changes q.1 q.2 v = false ∨ q ∈ ts.flatMap Errand.due
  nodup : fired.Nodup

namespace Spreads

variable {c : Circuit} {origin w w' : World} {first : Place} {v : Value} {ts ts' : List Errand}
  {fired : List SubscriberId}

theorem begin (c : Circuit) (origin : World) (first : Place) (v : Value) :
    c.Spreads origin first v origin [.copy [first]] [] where
  values _ := .inl rfl
  begun := .inr (by simp [Errand.due])
  due {q} member changes := by
    obtain rfl : q = first := by simpa [Errand.due] using member
    exact .stored changes
  waits member := absurd member (by simp [Errand.waits])
  unfired _ _ := ⟨rfl, fun _ _ => .inl rfl⟩
  received member := absurd member List.not_mem_nil
  nodup := List.nodup_nil

/-- Errands may be left out that would change nothing. -/
theorem settle (spreads : c.Spreads origin first v w ts fired)
    (due : ts'.flatMap Errand.due ⊆ ts.flatMap Errand.due)
    (waits : ts'.flatMap Errand.waits ⊆ ts.flatMap Errand.waits)
    (written : ∀ q ∈ ts.flatMap Errand.due,
      w.changes q.1 q.2 v = false ∨ q ∈ ts'.flatMap Errand.due)
    (told : ∀ s ∈ ts.flatMap Errand.waits, s ∈ fired ∨ s ∈ ts'.flatMap Errand.waits) :
    c.Spreads origin first v w ts' fired where
  values := spreads.values
  begun := spreads.begun.elim .inl (written _)
  due member := spreads.due (due member)
  waits member := spreads.waits (waits member)
  unfired watcher silent := by
    obtain ⟨same, waiting⟩ := spreads.unfired watcher silent
    refine ⟨same, fun p watches => (waiting p watches).imp_right fun waits => ?_⟩
    exact (told _ waits).resolve_left silent
  received member := by
    obtain ⟨watcher, affected, remembers, copied⟩ := spreads.received member
    exact ⟨watcher, affected, remembers, fun q target => (copied q target).elim .inl (written q)⟩
  nodup := spreads.nodup

/-- What has not changed yet is new to the value that it held in the beginning. -/
private theorem changes_origin (same : v.same v = true)
    (spreads : c.Spreads origin first v w ts fired) (held : w.value? p = some u)
    (news : u.same v = false) : origin.changes p.1 p.2 v = true := by
  rcases spreads.values p with unchanged | ⟨-, taken⟩
  · exact changes_iff.mpr ⟨u, unchanged.symm.trans held, news⟩
  · obtain rfl := Option.some.inj (held.symm.trans taken)
    rw [same] at news
    cases news

/-- A property takes the value, and its watchers wait to receive it. -/
private theorem store (same : v.same v = true)
    (spreads : c.Spreads origin first v w (.copy (p :: rest) :: ts) fired)
    (held : w.value? p = some u) (news : u.same v = false)
    (values : ∀ q, w'.value? q = if q = p then some v else w.value? q)
    (subscribers : w'.subscribers = w.subscribers)
    (all : ∀ s, s ∈ live ↔ s ∈ c.watchers ∧ origin.Watches s p) :
    c.Spreads origin first v w' (.tell live live :: .copy rest :: ts) fired := by
  have affected : c.Affected origin first v p :=
    spreads.due (by simp [Errand.due]) (changes_origin same spreads held news)
  have taken : w'.value? p = some v := (values p).trans (if_pos rfl)
  have still : ∀ q : Place, w.changes q.1 q.2 v = false → w'.changes q.1 q.2 v = false := by
    intro q settled
    by_cases here : q = p
    · exact here ▸ changes_of_held taken same
    · exact (changes_congr ((values q).trans (if_neg here)) v).trans settled
  -- Writing into the property is no longer due, as it holds the value.
  have written : ∀ q : Place, w.changes q.1 q.2 v = false ∨
      q ∈ (Errand.copy (p :: rest) :: ts).flatMap Errand.due →
      w'.changes q.1 q.2 v = false ∨
        q ∈ (Errand.tell live live :: .copy rest :: ts).flatMap Errand.due := by
    rintro q (settled | due)
    · exact .inl (still q settled)
    · rcases List.mem_cons.mp due with rfl | later
      · exact .inl (changes_of_held taken same)
      · exact .inr later
  constructor
  · intro q
    by_cases here : q = p
    · exact .inr (here ▸ ⟨affected, taken⟩)
    · rw [values, if_neg here]
      exact spreads.values q
  · exact written _ spreads.begun
  · intro q member
    exact spreads.due (List.mem_cons_of_mem p member)
  · intro s member
    rcases List.mem_append.mp member with new | old
    · obtain ⟨watcher, watches⟩ := (all s).mp new
      exact ⟨watcher, p, watches, affected⟩
    · exact spreads.waits old
  · intro s watcher silent
    obtain ⟨same, waiting⟩ := spreads.unfired watcher silent
    refine ⟨(watcher?_of_subscribers subscribers s).trans same, fun q watches => ?_⟩
    by_cases here : q = p
    · exact .inr (List.mem_append_left _ ((all s).mpr ⟨watcher, here ▸ watches⟩))
    · rw [values, if_neg here]
      exact (waiting q watches).imp_right (List.mem_append_right _)
  · intro s member
    obtain ⟨watcher, affected, ⟨x, watching, remembers⟩, copied⟩ := spreads.received member
    exact ⟨watcher, affected, ⟨x, (watcher?_of_subscribers subscribers s).trans watching, remembers⟩,
      fun q target => written q (copied q target)⟩
  · exact spreads.nodup

/-- A watcher receives the value, and its targets are due. -/
private theorem fire (same : v.same v = true)
    (spreads : c.Spreads origin first v w (.tell told (s :: rest) :: ts) fired)
    (watching : w.watcher? s = some x) (news : x.cached.same v = false) :
    c.Spreads origin first v (w.remember s v) (.copy (c.targets s) :: .tell told rest :: ts)
      (fired ++ [s]) := by
  obtain ⟨watcher, affected⟩ := spreads.waits (s := s) (by simp [Errand.waits])
  have remembers : (w.remember s v).watcher? s = some { x with cached := v } := by
    rw [watcher?_remember, if_pos rfl, watching]
    rfl
  have silent : s ∉ fired := by
    intro member
    obtain ⟨-, -, ⟨y, watching', known⟩, -⟩ := spreads.received member
    obtain rfl := Option.some.inj (watching.symm.trans watching')
    rw [known, same] at news
    cases news
  constructor
  · exact spreads.values
  · exact spreads.begun.imp_right (List.mem_append_right _)
  · intro q member changes
    rcases List.mem_append.mp member with target | old
    · obtain ⟨p, watches, affected⟩ := affected
      exact affected.through watcher watches target changes
    · exact spreads.due old changes
  · intro t member
    exact spreads.waits (List.mem_cons_of_mem s member)
  · intro t watcher' silent'
    obtain ⟨before, other⟩ : t ∉ fired ∧ t ≠ s := by simpa using silent'
    obtain ⟨same, waiting⟩ := spreads.unfired watcher' before
    refine ⟨?_, fun p watches => (waiting p watches).imp_right fun waits => ?_⟩
    · rw [watcher?_remember, if_neg (Ne.symm other)]
      exact same
    · exact (List.mem_cons.mp waits).resolve_left other
  · intro t member
    rcases List.mem_append.mp member with early | now
    · obtain ⟨watcher', affected', ⟨y, watching', known⟩, copied⟩ := spreads.received early
      have other : s ≠ t := fun here => silent (here ▸ early)
      refine ⟨watcher', affected', ⟨y, ?_, known⟩, fun q target => ?_⟩
      · rw [watcher?_remember, if_neg other]
        exact watching'
      · exact (copied q target).imp_right (List.mem_append_right _)
    · obtain rfl := List.mem_singleton.mp now
      exact ⟨watcher, affected, ⟨_, remembers, rfl⟩, fun q target =>
        .inr (List.mem_append_left _ target)⟩
  · rw [List.nodup_append]
    refine ⟨spreads.nodup, by simp, ?_⟩
    rintro t early _ now rfl
    exact silent (List.mem_singleton.mp now ▸ early)

/-- A watcher that waits and remembers the value has received it. -/
private theorem fired_of_known {caller : Machine σ} (wired : c.Wired caller)
    (spreads : c.Spreads caller.world first v w (.tell told (s :: rest) :: ts) fired)
    (watching : w.watcher? s = some x) (known : x.cached.same v = true) : s ∈ fired := by
  by_contra silent
  obtain ⟨watcher, p, ⟨y, watching', rfl⟩, affected⟩ :=
    spreads.waits (s := s) (by simp [Errand.waits])
  obtain ⟨same, -⟩ := spreads.unfired watcher silent
  obtain ⟨z, i, watching'', -, agrees, -⟩ := wired.copies watcher
  obtain rfl := Option.some.inj (watching'.symm.trans watching'')
  obtain rfl := Option.some.inj (watching.symm.trans (same.trans watching'))
  obtain ⟨u, held, news⟩ := changes_iff.mp affected.changes
  rw [peek_of_value? held] at agrees
  rw [Value.same_of_agrees agrees news] at known
  cases known

/-- One step carries the value on. -/
theorem step {caller : Machine σ} (wired : c.Wired caller) (same : v.same v = true)
    (spreads : c.Spreads caller.world first v w ts fired)
    (step : c.Step caller.world v w ts s? w' ts') :
    c.Spreads caller.world first v w' ts' (fired ++ s?.toList) := by
  cases step with
  | finishes told written =>
    rw [Option.toList_none, List.append_nil]
    refine spreads.settle ?_ ?_ ?_ ?_
    · exact List.subset_append_right _ _
    · exact List.subset_append_right _ _
    · intro q member
      exact .inr (by simpa [written] using member)
    · intro s member
      exact .inr (by simpa [told] using member)
  | passes held known =>
    rw [Option.toList_none, List.append_nil]
    refine spreads.settle (List.subset_cons_self _ _) (fun _ => id) ?_ fun _ => .inr
    intro q member
    rcases List.mem_cons.mp member with rfl | later
    · exact .inl (changes_of_held held known)
    · exact .inr later
  | stores held news values subscribers all =>
    rw [Option.toList_none, List.append_nil]
    exact spreads.store same held news values subscribers all
  | skips watching known =>
    rw [Option.toList_none, List.append_nil]
    refine spreads.settle (fun _ => id) (List.subset_cons_self _ _) (fun _ => .inr) ?_
    intro s member
    rcases List.mem_cons.mp member with rfl | later
    · exact .inl (spreads.fired_of_known wired watching known)
    · exact .inr later
  | fires watching news => exact spreads.fire same watching news

end Spreads

section Effort

private theorem countP_lt {α : Type} {x : α} {before after : α → Bool} {xs : List α}
    (fewer : ∀ x ∈ xs, after x = true → before x = true) (member : x ∈ xs)
    (was : before x = true) (gone : after x = false) : xs.countP after < xs.countP before := by
  induction xs with
  | nil => cases member
  | cons y ys ih =>
    have rest : ∀ x ∈ ys, after x = true → before x = true := fun x later =>
      fewer x (List.mem_cons_of_mem y later)
    have less : ys.countP after ≤ ys.countP before := List.countP_mono_left rest
    rw [List.countP_cons, List.countP_cons]
    rcases List.mem_cons.mp member with rfl | later
    · simp only [was, gone]
      exact Nat.lt_succ_of_le less
    · have strict := ih rest later
      by_cases now : after y = true
      · rw [if_pos now, if_pos (fewer y List.mem_cons_self now)]
        exact Nat.succ_lt_succ strict
      · rw [if_neg now]
        exact Nat.lt_of_lt_of_le strict (Nat.le_add_right _ _)

/-- How many properties are still to change, how many watchers do not remember the value,
and what the errands have to do in any case. -/
def effort (c : Circuit) (v : Value) (w : World) (ts : List Errand) : Nat × Nat × Nat :=
  (c.places.countP fun p => w.changes p.1 p.2 v,
    c.watchers.countP fun s => (w.watcher? s).any fun x => !x.cached.same v,
    (ts.map fun t => t.waits.length + t.due.length + 1).sum)

/-- Efforts are compared by their first parts, then by the second, then by the third. -/
abbrev Less : Nat × Nat × Nat → Nat × Nat × Nat → Prop :=
  Prod.Lex (· < ·) (Prod.Lex (· < ·) (· < ·))

/-- Every step takes some effort off: a property changes for good, or a watcher remembers the
value for good, or an errand gets shorter. -/
theorem Step.effort {c : Circuit} {origin w w' : World} {v : Value} {ts ts' : List Errand}
    (same : v.same v = true) (step : c.Step origin v w ts s? w' ts')
    (due : ∀ q ∈ ts.flatMap Errand.due, q ∈ c.places)
    (waits : ∀ s ∈ ts.flatMap Errand.waits, s ∈ c.watchers) :
    Less (c.effort v w' ts') (c.effort v w ts) := by
  have shorter : ∀ {ts ts' : List Errand}, (ts'.map fun t => t.waits.length + t.due.length + 1).sum <
      (ts.map fun t => t.waits.length + t.due.length + 1).sum →
      Less (c.effort v w ts') (c.effort v w ts) := fun less => .right _ (.right _ less)
  cases step with
  | finishes => exact shorter (by simp)
  | passes => exact shorter (by simp [Errand.waits, Errand.due])
  | skips => exact shorter (by simp [Errand.waits, Errand.due])
  | @stores p u live rest ts w' held news values =>
    have taken : w'.value? p = some v := (values p).trans (if_pos rfl)
    refine .left _ _ (countP_lt (x := p) (fun q _ changes => ?_) (due p (by simp [Errand.due])) ?_ ?_)
    · obtain ⟨u', holds, other⟩ := changes_iff.mp changes
      rw [values] at holds
      split at holds
      · rw [← Option.some.inj holds, same] at other
        cases other
      · exact changes_iff.mpr ⟨u', holds, other⟩
    · exact changes_iff.mpr ⟨u, held, news⟩
    · exact changes_of_held taken same
  | @fires s x told rest ts watching news =>
    refine .right _ (.left _ _ (countP_lt (x := s) (fun t _ remembers => ?_)
      (waits s (by simp [Errand.waits])) ?_ ?_))
    · rw [watcher?_remember] at remembers
      split at remembers
      · rename_i here
        subst here
        simp [watching, same] at remembers
      · exact remembers
    · simp [watching, news]
    · simp [watcher?_remember, watching, same]

end Effort

end Circuit

namespace Machine
open World Circuit

/-- The watchers whose reactions start within a number of steps, in order. -/
def firings (m : Machine σ) (n : Nat) : List SubscriberId :=
  (List.range n).filterMap fun i => (run i m).fires?.map (·.1)

theorem run_step (n : Nat) (m : Machine σ) : run n m.step = run (n + 1) m := by
  induction n with
  | zero => exact (run_succ 0 m).symm
  | succ n ih => rw [run_succ, ih, ← run_succ]

theorem firings_succ (m : Machine σ) (n : Nat) :
    m.firings (n + 1) = (m.fires?.map (·.1)).toList ++ m.step.firings n := by
  have later : m.step.firings n =
      ((List.range n).map Nat.succ).filterMap fun i => (run i m).fires?.map (·.1) := by
    rw [firings, List.filterMap_map]
    congr 1
    funext i
    simp only [Function.comp, run_step]
  have here : run 0 m = m := rfl
  rw [later, firings, List.range_succ_eq_map, List.filterMap_cons, here]
  cases m.fires?.map (·.1) <;> rfl

/-- A call that stores a value starts no reaction by itself. -/
theorem silent_of_writing {m : Machine σ} (calling : m.writing? = some call) : m.fires? = none := by
  have nobody : m.told? = none := by
    unfold writing? at calling
    split at calling
    · rename_i due
      simp only [told?, due]
    · rename_i due
      simp only [told?, due]
    · rename_i due
      simp only [told?, due]
    · cases calling
  simp [fires?, nobody]

end Machine

namespace Circuit
open World Machine

variable {c : Circuit} {caller : Machine σ} {first : Place} {v : Value}

theorem Wired.of_call {m : Machine σ} (wired : c.Wired m) (calling : m.writing? = some call) :
    c.Wired call.caller := by
  obtain ⟨world, callbacks, -⟩ := caller_of_writing calling
  have alive := alive_of_writing calling
  constructor
  · exact world ▸ wired.tracked
  · exact fun watcher => (alive _).trans (wired.alive watcher)
  · rw [world]
    exact fun among tracked lives => wired.listed among tracked ((alive _).symm.trans lives)
  · rw [world, callbacks]
    exact wired.copies
  · exact wired.targets

/-- Errands that are left stand above the calling machine. -/
theorem Runs.above {m : Machine σ} (runs : c.Runs caller v m (t :: ts)) :
    caller.frames.length < m.frames.length := by
  rw [runs.frames, List.length_append, List.length_map, List.length_cons]
  omega

/-- The errands come to their end, and the calling machine goes on. -/
theorem errands_end {m : Machine σ} {ts : List Errand} {fired : List SubscriberId}
    (wired : c.Wired caller) (same : v.same v = true)
    (runs : c.Runs caller v m ts) (spreads : c.Spreads caller.world first v m.world ts fired) :
    ∃ n, (∀ i < n, caller.frames.length < (run i m).frames.length) ∧
      (run n m).frames = caller.frames ∧
      c.Spreads caller.world first v (run n m).world [] (fired ++ m.firings n) := by
  cases left : ts with
  | nil =>
    rw [left] at runs spreads
    exact ⟨0, fun _ none => absurd none (Nat.not_lt_zero _), runs.frames,
      (List.append_nil fired).symm ▸ spreads⟩
  | cons t ts =>
    rw [left] at runs spreads
    obtain ⟨ts', runs', step⟩ := runs.step wired
    have less := step.effort same (fun _ => runs.due) fun _ member => (runs.waits member).1
    obtain ⟨n, above, back, after⟩ := errands_end wired same runs' (spreads.step wired same step)
    refine ⟨n + 1, ?_, by rw [← run_step, back], ?_⟩
    · intro i before
      cases i with
      | zero =>
        exact runs.above
      | succ i => exact run_step i m ▸ above i (Nat.lt_of_succ_lt_succ before)
    · rw [firings_succ, ← List.append_assoc, ← run_step]
      exact after
  termination_by c.effort v m.world ts
  decreasing_by exact left ▸ less

/-- When all errands are done, the value has reached what it was to reach, and nothing else. -/
theorem Spreads.affected_iff {w : World} (same : v.same v = true)
    (spreads : c.Spreads caller.world first v w [] fired) :
    (∀ p, c.Affected caller.world first v p → w.value? p = some v) ∧
    (∀ p, ¬c.Affected caller.world first v p → w.value? p = caller.world.value? p) ∧
    ∀ s, s ∈ fired ↔
      s ∈ c.watchers ∧ ∃ p, caller.world.Watches s p ∧ c.Affected caller.world first v p := by
  -- What would be changed has been, as soon as the value has come there.
  have taken : ∀ {q : Place}, caller.world.changes q.1 q.2 v = true →
      w.changes q.1 q.2 v = false → w.value? q = some v := by
    intro q changes settled
    rcases spreads.values q with unchanged | ⟨-, taken⟩
    · rw [changes_congr unchanged, changes] at settled
      cases settled
    · exact taken
  have received : ∀ {s p}, s ∈ c.watchers → caller.world.Watches s p →
      c.Affected caller.world first v p → w.value? p = some v → s ∈ fired := by
    intro s p watcher watches affected held
    by_contra silent
    obtain ⟨-, waiting⟩ := spreads.unfired watcher silent
    have unchanged := (waiting p watches).resolve_right List.not_mem_nil
    have still := changes_congr unchanged v
    rw [affected.changes, changes_of_held held same] at still
    cases still
  have reached : ∀ p, c.Affected caller.world first v p → w.value? p = some v := by
    intro p affected
    induction affected with
    | stored changes => exact taken changes (spreads.begun.resolve_right List.not_mem_nil)
    | through affected watcher watches target changes held =>
      obtain ⟨-, -, -, copied⟩ := spreads.received (received watcher watches affected held)
      exact taken changes ((copied _ target).resolve_right List.not_mem_nil)
  refine ⟨reached, ?_, fun s => ⟨fun member => ?_, ?_⟩⟩
  · intro p unaffected
    exact (spreads.values p).resolve_right fun affected => unaffected affected.1
  · obtain ⟨watcher, affected, -⟩ := spreads.received member
    exact ⟨watcher, affected⟩
  · rintro ⟨watcher, p, watches, affected⟩
    exact received watcher watches affected (reached p affected)

/-- Whoever writes a NaN back to its own property is still going to be told of it, or that
property is still going to be written. -/
theorem Step.owes {w w' : World} {ts ts' : List Errand} (nan : v.isNaN = true)
    (watcher : s ∈ c.watchers) (watches : caller.world.Watches s first) (loops : first ∈ c.targets s)
    (step : c.Step caller.world v w ts s? w' ts')
    (owes : first ∈ ts.flatMap Errand.due ∨ s ∈ ts.flatMap Errand.waits) :
    first ∈ ts'.flatMap Errand.due ∨ s ∈ ts'.flatMap Errand.waits := by
  have new : ∀ u : Value, u.same v = false := fun u =>
    (Value.same_comm u v).trans (Value.same_of_isNaN nan u)
  cases step with
  | finishes told written => simpa [told, written] using owes
  | passes _ same =>
    rw [new] at same
    cases same
  | stores _ _ _ _ all =>
    rcases owes with due | waits
    · rcases List.mem_cons.mp due with rfl | later
      · exact .inr (List.mem_append_left _ ((all s).mpr ⟨watcher, watches⟩))
      · exact .inl later
    · exact .inr (List.mem_append_right _ waits)
  | skips _ known =>
    rw [new] at known
    cases known
  | fires =>
    rcases owes with due | waits
    · exact .inl (List.mem_append_right _ due)
    · rcases List.mem_cons.mp waits with rfl | later
      · exact .inl (List.mem_append_left _ loops)
      · exact .inr later

end Circuit

namespace Machine
open World Circuit

/-- A call stores a value in a property of a circuit. If the value is identical to itself,
the call returns; the properties that it was to change hold it then, all others hold what
they held, and exactly the watchers of the changed ones have reacted, each of them once. If
it is a NaN, and a watcher of that property writes back to it, the call never returns. -/
theorem write_back_cycles_end {m : Machine σ} {c : Circuit} {call : WriteCall σ}
    (wired : c.Wired m) (calling : m.writing? = some call)
    (among : (call.root, call.key) ∈ c.places) :
    (call.value.same call.value = true → ∃ n, m.Returns call n ∧
      (∀ p, c.Affected m.world (call.root, call.key) call.value p →
        (run n m).world.value? p = some call.value) ∧
      (∀ p, ¬c.Affected m.world (call.root, call.key) call.value p →
        (run n m).world.value? p = m.world.value? p) ∧
      (m.firings n).Nodup ∧ ∀ s, s ∈ m.firings n ↔ s ∈ c.watchers ∧
        ∃ p, m.world.Watches s p ∧ c.Affected m.world (call.root, call.key) call.value p) ∧
    (call.value.isNaN = true → ∀ s ∈ c.watchers, m.world.Watches s (call.root, call.key) →
      (call.root, call.key) ∈ c.targets s → ∀ n, ¬m.Returns call n ∧
        (0 < n → call.caller.frames.length < (run n m).frames.length)) := by
  obtain ⟨world, -⟩ := caller_of_writing calling
  have stepped := step_of_writing calling
  have wired := wired.of_call calling
  rw [← world]
  have written := (Runs.begin c call.caller call.value).write wired among
  rw [← stepped] at written
  constructor
  · intro same
    -- Storing the value is the first errand; when it is done, the others are left.
    have started : ∃ ts, c.Runs call.caller call.value m.step ts ∧
        c.Spreads call.caller.world (call.root, call.key) call.value m.step.world ts [] := by
      have begun := Spreads.begin c call.caller.world (call.root, call.key) call.value
      rcases written with
        ⟨u, held, known, still⟩ | ⟨u, live, held, news, runs, values, subscribers, all⟩
      · refine ⟨[], still ▸ .begin c _ _, ?_⟩
        rw [still]
        refine begun.settle (List.nil_subset _) (List.nil_subset _) ?_ ?_
        · intro q member
          obtain rfl : q = (call.root, call.key) := by simpa [Errand.due] using member
          exact .inl (changes_of_held held known)
        · exact fun s member => absurd member (by simp [Errand.waits])
      · have stored := begun.step wired same (.stores held news values subscribers all)
        refine ⟨_, runs, stored.settle ?_ ?_ ?_ ?_⟩
        all_goals simp [Errand.due, Errand.waits]
    obtain ⟨ts, runs, spreads⟩ := started
    obtain ⟨n, above, back, after⟩ := errands_end wired same runs spreads
    have fired : m.firings (n + 1) = m.step.firings n := by
      rw [firings_succ, silent_of_writing calling]
      rfl
    rw [run_step] at back after
    rw [List.nil_append, ← fired] at after
    obtain ⟨reached, others, received⟩ := after.affected_iff same
    refine ⟨n + 1, ⟨Nat.succ_pos n, ?_, back⟩, reached, others, after.nodup, received⟩
    intro i before later
    obtain ⟨j, rfl⟩ := Nat.exists_eq_succ_of_ne_zero (Nat.ne_of_gt later)
    exact run_step j m ▸ above j (Nat.lt_of_succ_lt_succ before)
  · intro nan s watcher watches loops
    have owing : ∀ n, ∃ ts, c.Runs call.caller call.value (run (n + 1) m) ts ∧
        ((call.root, call.key) ∈ ts.flatMap Errand.due ∨ s ∈ ts.flatMap Errand.waits) := by
      intro n
      induction n with
      | zero =>
        rw [← run_step]
        rcases written with ⟨u, -, known, -⟩ | ⟨u, live, -, -, runs, -, -, all⟩
        · rw [Value.same_comm, Value.same_of_isNaN nan] at known
          cases known
        · exact ⟨_, runs, .inr (List.mem_append_left _ ((all s).mpr ⟨watcher, watches⟩))⟩
      | succ n ih =>
        obtain ⟨ts, runs, owes⟩ := ih
        cases ts with
        | nil => simp at owes
        | cons t ts =>
          obtain ⟨ts', runs', step⟩ := runs.step wired
          rw [run_succ]
          exact ⟨ts', runs', step.owes nan watcher watches loops owes⟩
    have busy : ∀ n, 0 < n → call.caller.frames.length < (run n m).frames.length := by
      intro n later
      obtain ⟨n, rfl⟩ := Nat.exists_eq_succ_of_ne_zero (Nat.ne_of_gt later)
      obtain ⟨ts, runs, owes⟩ := owing n
      cases ts with
      | nil => simp at owes
      | cons t ts => exact runs.above
    exact fun n => ⟨fun returns => absurd (busy n returns.1) (by rw [returns.2.2]; omega), busy n⟩

/-- Two properties of one object. The watcher of the first writes into both, that of the
second into the first. -/
def ring : Circuit where
  places := [(⟨0⟩, "a"), (⟨0⟩, "b")]
  watchers := [⟨0⟩, ⟨1⟩]
  targets s := if s = ⟨0⟩ then [(⟨0⟩, "a"), (⟨0⟩, "b")] else [(⟨0⟩, "a")]

/-- Builds the ring, lists the first watcher a second time, and stores a value. -/
def ringing (v : Value) : Program Unit :=
  .call (.act (.newObject [("a", .null), ("b", .null)])) fun _ =>
  .call (.act (.observe (.object ⟨0⟩))) fun _ =>
  .call (.watch ⟨0⟩ "a" fun v => .copy v (ring.targets ⟨0⟩)) fun _ =>
  .call (.watch ⟨0⟩ "b" fun v => .copy v (ring.targets ⟨1⟩)) fun _ =>
  .call (.register ⟨0⟩ ⟨0⟩) fun _ =>
  .call (.write ⟨0⟩ "a" v) fun _ => .done

/-- The machine about to store the value. -/
def ringingMachine (v : Value) : Machine Unit := run 5 (start { host := () } (ringing v))

private theorem ring_wired {m : Machine Unit}
    (slots : (m.world.properties ⟨0⟩).slots = [⟨"a", .null, some ⟨0⟩⟩, ⟨"b", .null, some ⟨1⟩⟩])
    (entries : m.world.entries ⟨0⟩ = [⟨0⟩, ⟨0⟩] ∧ m.world.entries ⟨1⟩ = [⟨1⟩])
    (subscribers : m.world.subscribers.cells = #[.watcher ⟨⟨0⟩, "a", .null, .callback ⟨0⟩⟩,
      .watcher ⟨⟨0⟩, "b", .null, .callback ⟨1⟩⟩])
    (alive : m.alive ⟨0⟩ = true ∧ m.alive ⟨1⟩ = true)
    (callbacks : m.callbacks.cells =
      #[fun v => .copy v (ring.targets ⟨0⟩), fun v => .copy v (ring.targets ⟨1⟩)]) :
    ring.Wired m := by
  have a : m.world.slot? ⟨0⟩ "a" = some ⟨"a", .null, some ⟨0⟩⟩ := by
    rw [slot?, Properties.find?_eq, slots]
    rfl
  have b : m.world.slot? ⟨0⟩ "b" = some ⟨"b", .null, some ⟨1⟩⟩ := by
    rw [slot?, Properties.find?_eq, slots]
    rfl
  have first : m.world.watcher? ⟨0⟩ = some ⟨⟨0⟩, "a", .null, .callback ⟨0⟩⟩ := by
    rw [watcher?, subscriber?, Arena.get?, subscribers]
    rfl
  have second : m.world.watcher? ⟨1⟩ = some ⟨⟨0⟩, "b", .null, .callback ⟨1⟩⟩ := by
    rw [watcher?, subscriber?, Arena.get?, subscribers]
    rfl
  have members : ∀ {s}, s ∈ ring.watchers → s = ⟨0⟩ ∨ s = ⟨1⟩ := by simp [ring]
  constructor
  · intro p among
    rcases List.mem_pair.mp among with rfl | rfl
    · exact ⟨_, _, a, rfl⟩
    · exact ⟨_, _, b, rfl⟩
  · intro s watcher
    rcases members watcher with rfl | rfl
    · exact alive.1
    · exact alive.2
  · rintro p d s among ⟨slot, found, listed⟩ _
    rcases List.mem_pair.mp among with rfl | rfl
    · obtain rfl := Option.some.inj (found.symm.trans a)
      obtain rfl := Option.some.inj listed
      rw [entries.1]
      constructor
      · intro entry
        obtain rfl : s = ⟨0⟩ := by simpa using entry
        exact ⟨by decide, _, first, rfl⟩
      · rintro ⟨watcher, x, watching, named⟩
        rcases members watcher with rfl | rfl
        · exact List.mem_cons_self
        · obtain rfl := Option.some.inj (watching.symm.trans second)
          exact absurd named (by decide)
    · obtain rfl := Option.some.inj (found.symm.trans b)
      obtain rfl := Option.some.inj listed
      rw [entries.2]
      constructor
      · intro entry
        obtain rfl : s = ⟨1⟩ := by simpa using entry
        exact ⟨by decide, _, second, rfl⟩
      · rintro ⟨watcher, x, watching, named⟩
        rcases members watcher with rfl | rfl
        · obtain rfl := Option.some.inj (watching.symm.trans first)
          exact absurd named (by decide)
        · exact List.mem_cons_self
  · intro s watcher
    rcases members watcher with rfl | rfl
    · refine ⟨_, _, first, by decide, ?_, rfl, by rw [Arena.get?, callbacks]; rfl⟩
      rw [peek_of_slot a]
      exact Value.agrees_refl _
    · refine ⟨_, _, second, by decide, ?_, rfl, by rw [Arena.get?, callbacks]; rfl⟩
      rw [peek_of_slot b]
      exact Value.agrees_refl _
  · intro s q watcher target
    rcases members watcher with rfl | rfl
    · exact target
    · obtain rfl : q = (⟨0⟩, "a") := by simpa [ring] using target
      exact List.mem_cons_self

private theorem ringing_calls (v : Value) : (ringingMachine v).writing? = some
    ⟨{ ringingMachine v with frames := [.program .done] }, ⟨0⟩, "a", v⟩ := by
  have due : (ringingMachine v).frames =
      [.program (.call (.write ⟨0⟩ "a" v) fun _ => .done)] := by cbv
  simp only [writing?, due]

/-- A text goes once around the ring, a NaN goes around it forever. -/
theorem ringing_ends_unless_nan :
    (∃ (m : Machine Unit) (call : WriteCall Unit), ring.Wired m ∧ m.writing? = some call ∧
      (call.root, call.key) ∈ ring.places ∧ call.value.same call.value = true ∧
      ∃ n, m.Returns call n ∧ (run n m).world.value? (⟨0⟩, "b") = some call.value ∧
        (m.firings n).Nodup ∧ ⟨0⟩ ∈ m.firings n ∧ ⟨1⟩ ∈ m.firings n) ∧
    ∃ (m : Machine Unit) (call : WriteCall Unit), ring.Wired m ∧ m.writing? = some call ∧
      (call.root, call.key) ∈ ring.places ∧ call.value.isNaN = true ∧ ∀ n, ¬m.Returns call n := by
  constructor
  · have wired : ring.Wired (ringingMachine (.string "x")) := ring_wired (by decide +kernel)
      (by decide +kernel) (by decide +kernel) (by decide +kernel) (by cbv)
    have first : (ringingMachine (.string "x")).world.Watches ⟨0⟩ (⟨0⟩, "a") :=
      ⟨⟨⟨0⟩, "a", .null, .callback ⟨0⟩⟩, by decide +kernel, rfl⟩
    have second : (ringingMachine (.string "x")).world.Watches ⟨1⟩ (⟨0⟩, "b") :=
      ⟨⟨⟨0⟩, "b", .null, .callback ⟨1⟩⟩, by decide +kernel, rfl⟩
    have here : ring.Affected (ringingMachine (.string "x")).world (⟨0⟩, "a") (.string "x")
        (⟨0⟩, "a") := .stored (by decide +kernel)
    have there : ring.Affected (ringingMachine (.string "x")).world (⟨0⟩, "a") (.string "x")
        (⟨0⟩, "b") := here.through (by decide) first (by decide) (by decide +kernel)
    obtain ⟨n, returns, reached, -, nodup, fired⟩ :=
      (write_back_cycles_end wired (ringing_calls _) (by decide)).1 (by decide)
    exact ⟨_, _, wired, ringing_calls _, by decide, by decide, n, returns, reached _ there, nodup,
      (fired _).mpr ⟨by decide, _, first, here⟩, (fired _).mpr ⟨by decide, _, second, there⟩⟩
  · have wired : ring.Wired (ringingMachine (.number .nan)) := ring_wired (by decide +kernel)
      (by decide +kernel) (by decide +kernel) (by decide +kernel) (by cbv)
    have watches : (ringingMachine (.number .nan)).world.Watches ⟨0⟩ (⟨0⟩, "a") :=
      ⟨⟨⟨0⟩, "a", .null, .callback ⟨0⟩⟩, by decide +kernel, rfl⟩
    have never := (write_back_cycles_end wired (ringing_calls _) (by decide)).2 (by decide) ⟨0⟩
      (by decide) watches (by decide)
    exact ⟨_, _, wired, ringing_calls _, by decide, by decide, fun n => (never n).1⟩

end Machine
end DataBinding
