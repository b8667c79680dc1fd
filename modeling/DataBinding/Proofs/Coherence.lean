import DataBinding.Proofs.Reachable

/-! Watchers under re-entrancy. While a change is being told, callbacks may write the same
property again, and the watchers that wait in the outer round then hear of the newest value
first. What carries over from step to step is that a watcher either remembers the current
value or still waits in some round; when the call that began the first of these rounds
returns, nobody waits any more. -/
namespace DataBinding

/-- The values are identical, or neither is identical to anything. -/
def Value.Agrees (a b : Value) : Prop := a.same b = true ∨ a.isNaN = true ∧ b.isNaN = true

theorem Value.agrees_refl (v : Value) : v.Agrees v := by
  cases nan : v.isNaN with
  | true => exact .inr ⟨nan, nan⟩
  | false => exact .inl (by rw [same_self, nan]; rfl)

/-- Both zeros are written without a sign. -/
private theorem Number.write_of_same {a b : Number} (same : a.same b = true) :
    shown.write a = shown.write b := by
  simp only [Number.same, Bool.and_eq_true, Bool.or_eq_true, beq_iff_eq] at same
  obtain ⟨-, bits | zeros⟩ := same
  · obtain rfl : a = b := by cases a; cases b; simp_all
    rfl
  · have zero : ∀ n : Number, n.isZero = true → shown.write n = "0" := by
      intro n zero
      have least : n.magnitude = 0 := by simpa [Number.isZero] using zero
      simp [Layout.write, Layout.unsigned, Number.isNaN, Number.isInfinite, Number.infinite, zero,
        least, shown]
    rw [zero a zeros.1, zero b zeros.2]

/-- Values that agree are shown alike. -/
theorem Value.display_of_agrees {a b : Value} (agrees : a.Agrees b) :
    a.display = b.display ∧ a.isNullish = b.isNullish ∧ a.formValue = b.formValue := by
  rcases agrees with same | ⟨nanA, nanB⟩
  · cases a <;> cases b <;> simp only [Value.same, Bool.false_eq_true, beq_iff_eq] at same
    case number.number m n =>
      have written := Number.write_of_same same
      exact ⟨written, rfl, written⟩
    all_goals simp_all [Value.display, Value.isNullish, Value.formValue]
  · cases a <;> cases b <;> simp only [Value.isNaN, Bool.false_eq_true] at nanA nanB
    have written : ∀ n : Number, n.isNaN = true → Number.shown.write n = "NaN" := by
      intro n nan
      simp [Number.Layout.write, nan, Number.shown]
    rename_i m n
    have alike := (written m nanA).trans (written n nanB).symm
    exact ⟨alike, rfl, alike⟩

theorem Value.formValue_of_agrees {a b : Value} (agrees : a.Agrees b) :
    a.formValue = b.formValue :=
  (Value.display_of_agrees agrees).2.2

/-- A call that stores a value, as it is made. -/
structure WriteCall (σ : Type) where
  /-- The machine that goes on when the call has returned. -/
  caller : Machine σ
  root : ObjectId
  key : String
  value : Value

namespace Machine
open World

variable {σ : Type}

/-- The call with which the next step stores a value, made by a program or by the listener
of a form control. -/
def writing? (m : Machine σ) : Option (WriteCall σ) :=
  match m.frames with
  | .program (.call (.write o key v) next) :: below =>
    some ⟨{ m with frames := .program (next .done) :: below }, o, key, v⟩
  | .program (.call (.assign vm key v) next) :: below =>
    (m.world.viewModel? vm).map fun view =>
      ⟨{ m with frames := .keeping view.watchers :: .program (next .done) :: below },
        view.data, key, v⟩
  | .dispatching n (.writeBack data key :: more) :: below =>
    some ⟨{ m with frames := .dispatching n more :: below }, data, key,
      .string (m.world.controlValue n)⟩
  | _ => none

theorem step_of_writing {m : Machine σ} (calling : m.writing? = some call) :
    m.step = call.caller.write call.root call.key call.value := by
  unfold writing? at calling
  split at calling
  · rename_i due
    obtain rfl := Option.some.inj calling
    simp only [step, due]
    rfl
  · rename_i due
    obtain ⟨view, found, rfl⟩ := Option.map_eq_some_iff.mp calling
    simp only [step, due, request, found]
    rfl
  · rename_i due
    obtain rfl := Option.some.inj calling
    simp only [step, due]
    rfl
  · cases calling

theorem caller_of_writing {m : Machine σ} (calling : m.writing? = some call) :
    call.caller.world = m.world ∧ call.caller.callbacks = m.callbacks ∧ call.caller.frames ≠ [] ∧
      ∃ top added below, m.frames = top :: below ∧ call.caller.frames = added ++ below := by
  unfold writing? at calling
  split at calling
  · rename_i due
    obtain rfl := Option.some.inj calling
    exact ⟨rfl, rfl, List.cons_ne_nil _ _, _, [_], _, due, rfl⟩
  · rename_i due
    obtain ⟨view, -, rfl⟩ := Option.map_eq_some_iff.mp calling
    exact ⟨rfl, rfl, List.cons_ne_nil _ _, _, [_, _], _, due, rfl⟩
  · rename_i due
    obtain rfl := Option.some.inj calling
    exact ⟨rfl, rfl, List.cons_ne_nil _ _, _, [_], _, due, rfl⟩
  · cases calling

/-- Making a call that stores a value neither keeps nor gives up anybody. -/
theorem alive_of_writing {m : Machine σ} (calling : m.writing? = some call) (s : SubscriberId) :
    call.caller.alive s = m.alive s := by
  unfold writing? at calling
  split at calling
  · rename_i due
    obtain rfl := Option.some.inj calling
    simp [alive, due, Frame.keeps]
  · rename_i due
    obtain ⟨view, found, rfl⟩ := Option.map_eq_some_iff.mp calling
    by_cases listed : s ∈ view.watchers
    · simp [alive, due, holds_of_viewModel found listed]
    · simp [alive, due, Frame.keeps, listed]
  · rename_i due
    obtain rfl := Option.some.inj calling
    simp [alive, due, Frame.keeps]
  · cases calling

/-- The call that the machine makes with its next step returns with the `n`-th step: it is
then that, for the first time, nothing is in progress above its caller. A call that is
broken off does not return. -/
def Returns (m : Machine σ) (call : WriteCall σ) (n : Nat) : Prop :=
  0 < n ∧ (∀ i < n, 0 < i → call.caller.frames.length < (run i m).frames.length) ∧
    (run n m).frames = call.caller.frames

/-- The next step stores another value in the tracked property, and the subscriber has an
entry there. -/
def StoresFor (m : Machine σ) (o : ObjectId) (key : String) (s : SubscriberId) : Prop :=
  ∃ call slot d, m.writing? = some call ∧ call.root = o ∧ call.key = key ∧
    m.world.slot? o key = some slot ∧ slot.dep = some d ∧ slot.value.same call.value = false ∧
    s ∈ m.world.entries d

/-- A call in progress above `base` is still going to tell the subscriber. -/
def Awaits (m : Machine σ) (base : List (Frame σ)) (s : SubscriberId) : Prop :=
  ∃ above, m.frames = above ++ base ∧ ∃ f ∈ above, s ∈ f.pending

/-- A watcher of the property is listed there, and it remembers the current value or is
still going to be told. -/
def Settled (base : List (Frame σ)) (o : ObjectId) (key : String) (d : DepId) (m : Machine σ)
    (s : SubscriberId) : Prop :=
  ∀ x, m.world.watcher? s = some x → x.root = o → x.key = key →
    s ∈ m.world.entries d ∧ (x.cached.Agrees (m.world.peek o key) ∨ m.Awaits base s)

end Machine

namespace World

/-- The property is tracked with this dependency list. -/
def Tracked (w : World) (o : ObjectId) (key : String) (d : DepId) : Prop :=
  ∃ slot, w.slot? o key = some slot ∧ slot.dep = some d

/-- A tracked property stays tracked with its list when a value is stored anywhere. -/
theorem tracked_store {w : World} (found : w.slot? o key = some slot) (listed : slot.dep = some d)
    (written : ObjectId) (name : String) (value : Value) :
    ((w.modifyObject written (·.replace name value)).observe value).Tracked o key d := by
  have grows := (moves_observe (w.modifyObject written (·.replace name value)) value).grows
  by_cases here : o = written ∧ key = name
  · obtain ⟨rfl, rfl⟩ := here
    exact ⟨_, grows.tracked (slot?_replace_self value found) listed, listed⟩
  · exact ⟨slot, grows.tracked (slot?_replace_other value found here) listed, listed⟩

theorem slot?_of_objects {w w' : World} (same : w'.objects = w.objects) (o : ObjectId)
    (key : String) : w'.slot? o key = w.slot? o key := by
  simp only [slot?, properties, same]

theorem peek_of_objects {w w' : World} (same : w'.objects = w.objects) (o : ObjectId)
    (key : String) : w'.peek o key = w.peek o key := by
  simp only [peek_eq, slot?_of_objects same]

theorem entries_of_deps {w w' : World} (same : w'.deps = w.deps) (d : DepId) :
    w'.entries d = w.entries d := by
  simp only [entries, same]

theorem watcher?_of_subscribers {w w' : World} (same : w'.subscribers = w.subscribers)
    (s : SubscriberId) : w'.watcher? s = w.watcher? s := by
  simp only [watcher?, subscriber?, same]

/-- A reaction changes the page only. -/
theorem react_same (w : World) (reaction : Reaction) (value : Value) :
    (w.react reaction value).objects = w.objects ∧ (w.react reaction value).deps = w.deps ∧
      (w.react reaction value).subscribers = w.subscribers := by
  cases reaction with
  | callback c => exact ⟨rfl, rfl, rfl⟩
  | showText n =>
    simp only [react]
    unfold setText
    split
    · exact ⟨rfl, rfl, rfl⟩
    · exact ⟨rfl, rfl, rfl⟩
    · split <;> exact ⟨rfl, rfl, rfl⟩
  | showValue n => exact ⟨rfl, rfl, rfl⟩

theorem watcher?_remember (w : World) (s t : SubscriberId) (value : Value) :
    (w.remember s value).watcher? t =
      if s = t then (w.watcher? t).map fun x => { x with cached := value } else w.watcher? t := by
  by_cases same : s = t
  · subst same
    cases found : w.subscribers.get? s.index with
    | none => simp [watcher?, subscriber?, remember, Arena.get?_modify, found]
    | some x => cases x <;>
        simp [watcher?, subscriber?, remember, Arena.get?_modify, found, Subscriber.remember,
          Subscriber.watcher?]
  · have apart : s.index ≠ t.index := fun eq => same (by cases s; cases t; simp_all)
    simp [watcher?, subscriber?, remember, Arena.get?_modify, same, apart]

theorem subscribers_observeAll (w : World) (pending : List Value) :
    (w.observeAll pending).subscribers = w.subscribers := by
  induction w, pending using observeAll.induct with
  | case1 w => rw [observeAll]
  | case2 w o rest ih =>
    rw [observeAll, ih]
    rfl
  | case3 w v rest plain ih =>
    rw [observeAll]
    · exact ih
    · exact plain

theorem nodes_observeAll (w : World) (pending : List Value) :
    (w.observeAll pending).nodes = w.nodes := by
  induction w, pending using observeAll.induct with
  | case1 w => rw [observeAll]
  | case2 w o rest ih =>
    rw [observeAll, ih]
    rfl
  | case3 w v rest plain ih =>
    rw [observeAll]
    · exact ih
    · exact plain

/-- Storing a value concerns neither pages nor subscribers nor their entries. -/
theorem write_same (w : World) (o : ObjectId) (key : String) (value : Value) :
    (w.write o key value).1.nodes = w.nodes ∧
      (w.write o key value).1.subscribers = w.subscribers ∧
      ∀ d, (w.write o key value).1.entries d = w.entries d := by
  unfold write
  split
  · exact ⟨rfl, rfl, fun _ => rfl⟩
  · split
    · exact ⟨rfl, rfl, fun _ => rfl⟩
    · split
      · exact ⟨rfl, rfl, fun _ => rfl⟩
      · exact ⟨nodes_observeAll _ _, subscribers_observeAll _ _, entries_observe _ _⟩

end World

namespace Machine
open World

/-- Telling a subscriber changes neither objects nor dependency lists, and no watcher but
the one that is told, which then remembers the current value. -/
theorem update_same (m : Machine σ) (s : SubscriberId) :
    (m.update s).world.objects = m.world.objects ∧ (m.update s).world.deps = m.world.deps ∧
    (m.update s).world.subscribers.size = m.world.subscribers.size ∧
    ∀ t x, (m.update s).world.watcher? t = some x → ∃ before, m.world.watcher? t = some before ∧
      x.root = before.root ∧ x.key = before.key ∧
      (t = s → x.cached.Agrees (m.world.peek x.root x.key)) ∧ (t ≠ s → x = before) := by
  rcases update_cases m s with ⟨added, same, -, current⟩ | ⟨x, added, found, -, -, same⟩
  · rw [same]
    refine ⟨rfl, rfl, rfl, ?_⟩
    intro t x present
    exact ⟨x, present, rfl, rfl, fun told => .inl (current x (told ▸ present)), fun _ => rfl⟩
  · rw [same]
    obtain ⟨objects, deps, subscribers⟩ := react_same
      (m.world.remember s (m.world.peek x.root x.key)) x.reaction (m.world.peek x.root x.key)
    refine ⟨objects, deps, by rw [subscribers]; simp [remember], ?_⟩
    intro t y present
    rw [watcher?_of_subscribers subscribers, watcher?_remember] at present
    by_cases told : s = t
    · subst told
      rw [if_pos rfl, found] at present
      obtain rfl := Option.some.inj present
      exact ⟨x, found, rfl, rfl, fun _ => Value.agrees_refl _, fun other => absurd rfl other⟩
    · rw [if_neg told] at present
      exact ⟨y, present, rfl, rfl, fun same => absurd same.symm told, fun _ => rfl⟩

/-- A tracked property stays tracked with its list. -/
theorem Turn.tracked {m m' : Machine σ} (turn : Turn m m') (tracked : m.world.Tracked o key d) :
    m'.world.Tracked o key d := by
  obtain ⟨slot, found, listed⟩ := tracked
  cases turn with
  | still => exact ⟨slot, found, listed⟩
  | calm _ _ _ moves => exact ⟨slot, moves.grows.tracked found listed, listed⟩
  | @tell top added below s =>
    have objects := (update_same { m with frames := added ++ below } s).1
    exact ⟨slot, (slot?_of_objects objects o key).trans found, listed⟩
  | notify => exact ⟨slot, found, listed⟩
  | store => exact tracked_store found listed _ _ _
  | broken moves => exact ⟨slot, moves.grows.tracked found listed, listed⟩

/-- A subscriber that waits for a call above `base` still does after a step, unless it has
just been told. -/
private theorem awaits_after {m m' : Machine σ} (calls : m.Calls top added below)
    (inside : m.frames = first :: above ++ base) (pending : s ∈ top.pending → ∃ f ∈ added, s ∈ f.pending)
    (frames : ∃ begun, m'.frames = begun ++ (added ++ below)) (awaits : m.Awaits base s) :
    m'.Awaits base s := by
  obtain ⟨above', same, f, member, waits⟩ := awaits
  obtain rfl : above' = first :: above := List.append_cancel_right (same.symm.trans inside)
  obtain ⟨rfl, rfl⟩ : top = first ∧ below = above ++ base := by
    have due := calls.due.symm.trans inside
    exact ⟨(List.cons.inj due).1, (List.cons.inj due).2⟩
  obtain ⟨begun, after⟩ := frames
  rcases List.mem_cons.mp member with rfl | later
  · obtain ⟨g, new, waits⟩ := pending waits
    exact ⟨begun ++ (added ++ above), by simp [after], g, by simp [new], waits⟩
  · exact ⟨begun ++ (added ++ above), by simp [after], f, by simp [later], waits⟩

private theorem settled_calm {m m' : Machine σ} (calls : m.Calls top added below)
    (quiet : top.pending = []) (moves : Moves m.world m'.world) (frames : m'.frames = added ++ below)
    (tracked : m.world.Tracked o key d) (inside : m.frames = first :: above ++ base)
    (known : m.world.Known s) (settled : m.Settled base o key d s) : m'.Settled base o key d s := by
  have grows := moves.grows
  obtain ⟨slot, found, listed⟩ := tracked
  have value : m'.world.peek o key = m.world.peek o key :=
    (peek_of_slot (grows.tracked found listed)).trans (peek_of_slot found).symm
  intro x present root watched
  have before : m.world.watcher? s = some x := grows.watcher_of_known known present
  obtain ⟨entry, agrees | awaits⟩ := settled x before root watched
  · exact ⟨(grows.entries d).subset entry, .inl (value ▸ agrees)⟩
  · refine ⟨(grows.entries d).subset entry, .inr ?_⟩
    exact awaits_after calls inside (by simp [quiet]) ⟨[], frames⟩ awaits

private theorem settled_tell {m : Machine σ} (calls : m.Calls top added below)
    (pending : ∀ t ∈ top.pending, t = told ∨ ∃ f ∈ added, t ∈ f.pending)
    (inside : m.frames = first :: above ++ base) (settled : m.Settled base o key d s) :
    (update { m with frames := added ++ below } told).Settled base o key d s := by
  obtain ⟨objects, deps, -, watchers⟩ := update_same { m with frames := added ++ below } told
  intro x present root watched
  obtain ⟨before, found, sameRoot, sameKey, fresh, other⟩ := watchers s x present
  obtain ⟨entry, agrees⟩ := settled before found (sameRoot ▸ root) (sameKey ▸ watched)
  refine ⟨entries_of_deps deps d ▸ entry, ?_⟩
  rw [peek_of_objects objects]
  by_cases here : s = told
  · left
    have agrees := fresh here
    rwa [root, watched] at agrees
  · obtain rfl := other here
    rcases agrees with agrees | awaits
    · exact .inl agrees
    · obtain ⟨begun, frames, -⟩ := frames_update { m with frames := added ++ below } told
      refine .inr (awaits_after calls inside (fun waits => ?_) ⟨begun, frames⟩ awaits)
      exact (pending s waits).resolve_left here

/-- Whoever is listed and alive when a notification begins waits for it. -/
private theorem settled_notify {m : Machine σ} (calls : m.Calls top added below)
    (quiet : top.pending = []) (inside : m.frames = first :: above ++ base)
    (alive : Machine.alive (notify { m with frames := added ++ below } d') s = true)
    (settled : m.Settled base o key d s) :
    (notify { m with frames := added ++ below } d').Settled base o key d s := by
  intro x present root watched
  obtain ⟨entry, agrees⟩ := settled x present root watched
  constructor
  · rw [entries_notify]
    split
    · exact List.mem_filter.mpr ⟨entry, alive_notify alive⟩
    · exact entry
  · rcases agrees with agrees | awaits
    · exact .inl agrees
    · exact .inr (awaits_after calls inside (by simp [quiet]) ⟨[_], rfl⟩ awaits)

/-- Whoever is listed and alive when a value is stored waits to be told. -/
private theorem awaits_notify {m : Machine σ} (calls : m.Calls top added below)
    (inside : m.frames = first :: above ++ base)
    (alive : Machine.alive (notify { m with world := w, frames := added ++ below } d) s = true)
    (entry : s ∈ w.entries d) :
    (notify { m with world := w, frames := added ++ below } d).Awaits base s := by
  have rest : below = above ++ base := (List.cons.inj (calls.due.symm.trans inside)).2
  let live := (w.entries d).filter (Machine.alive { m with world := w, frames := added ++ below })
  refine ⟨.notifying live live :: (added ++ above), ?_, _, List.mem_cons_self, ?_⟩
  · simp [Machine.notify, push, live, rest]
  · exact List.mem_filter.mpr ⟨entry, alive_notify alive⟩

private theorem settled_store {m : Machine σ} (calls : m.Calls top added below)
    (quiet : top.pending = []) (inside : m.frames = first :: above ++ base)
    (tracked : m.world.Tracked o key d) (found : m.world.slot? o' key' = some slot')
    (listed' : slot'.dep = some d')
    (alive : Machine.alive (notify { m with
      world := (m.world.modifyObject o' (·.replace key' value)).observe value
      frames := added ++ below } d') s = true)
    (settled : m.Settled base o key d s) :
    (notify { m with
      world := (m.world.modifyObject o' (·.replace key' value)).observe value
      frames := added ++ below } d').Settled base o key d s := by
  obtain ⟨slot, present, listed⟩ := tracked
  have grows := (moves_observe (m.world.modifyObject o' (·.replace key' value)) value).grows
  have subscribers : ((m.world.modifyObject o' (·.replace key' value)).observe value).subscribers =
      m.world.subscribers := subscribers_observeAll _ _
  intro x watcher root watched
  have before : m.world.watcher? s = some x :=
    (watcher?_of_subscribers subscribers s).symm.trans watcher
  obtain ⟨entry, agrees⟩ := settled x before root watched
  have still : s ∈ ((m.world.modifyObject o' (·.replace key' value)).observe value).entries d :=
    (grows.entries d).subset entry
  constructor
  · rw [entries_notify]
    split
    · exact List.mem_filter.mpr ⟨still, alive_notify alive⟩
    · exact still
  · by_cases here : o = o' ∧ key = key'
    · -- The property itself has changed, so all that are listed are going to be told.
      obtain ⟨rfl, rfl⟩ := here
      obtain rfl : slot = slot' := Option.some.inj (present.symm.trans found)
      obtain rfl : d = d' := Option.some.inj (listed.symm.trans listed')
      exact .inr (awaits_notify calls inside alive still)
    · have kept := grows.tracked (slot?_replace_other value present here) listed
      rcases agrees with agrees | awaits
      · left
        rw [peek_of_slot present] at agrees
        exact peek_of_slot kept ▸ agrees
      · exact .inr (awaits_after calls inside (by simp [quiet]) ⟨[_], rfl⟩ awaits)

/-- A settled subscriber stays settled as long as it is alive and nothing is broken off. -/
theorem Turn.settled {m m' : Machine σ} (turn : Turn m m') (tracked : m.world.Tracked o key d)
    (inside : m.frames = first :: above ++ base) (unbroken : m'.frames = [] → m'.failure = none)
    (alive : m'.alive s = true) (known : m.world.Known s) (settled : m.Settled base o key d s) :
    m'.Settled base o key d s := by
  cases turn with
  | still idle =>
    rw [idle] at inside
    cases inside
  | calm calls quiet _ moves _ _ frames _ =>
    exact settled_calm calls quiet moves frames tracked inside known settled
  | tell calls _ pending _ => exact settled_tell calls pending inside settled
  | notify calls quiet _ _ => exact settled_notify calls quiet inside alive settled
  | store calls quiet _ found listed _ =>
    exact settled_store calls quiet inside tracked found listed alive settled
  | broken _ _ _ frames failure => exact absurd (unbroken frames) failure

/-- A subscriber that is new after a step is settled: only calm steps add subscribers, and
watchers begin with the current value. -/
theorem Turn.settled_new {m m' : Machine σ} (turn : Turn m m') (sound : m.world.Sound)
    (tracked : m.world.Tracked o key d) (unknown : ¬m.world.Known s)
    (unbroken : m'.frames = [] → m'.failure = none) : m'.Settled base o key d s := by
  intro x present root watched
  obtain ⟨slot, found, listed⟩ := tracked
  have known := known_of_watcher present
  cases turn with
  | still => exact absurd known unknown
  | calm _ _ _ moves =>
    obtain ⟨rfl, rfl⟩ : x.root = o ∧ x.key = key := ⟨root, watched⟩
    have grows := moves.grows
    obtain ⟨remembers, entry⟩ := grows.fresh unknown present found listed (sound.dep found listed)
    refine ⟨entry, .inl ?_⟩
    rw [peek_of_slot (grows.tracked found listed), remembers]
    exact Value.agrees_refl _
  | @tell top added below told =>
    have same := (update_same { m with frames := added ++ below } told).2.2.1
    rw [Known, same] at known
    exact absurd known unknown
  | notify => exact absurd known unknown
  | @store _ _ _ o' key' _ _ value =>
    have same : ((m.world.modifyObject o' (·.replace key' value)).observe value).subscribers =
        m.world.subscribers := subscribers_observeAll _ _
    have old : m.world.Known s := by
      rw [Known, ← same]
      exact known
    exact absurd old unknown
  | broken _ _ _ frames failure => exact absurd (unbroken frames) failure

/-- What holds of the machine in the course of a call that has changed a property: of the
subscribers in question, those that are alive are settled. -/
private structure Carries (base : List (Frame σ)) (o : ObjectId) (key : String) (d : DepId)
    (meant : SubscriberId → Prop) (m : Machine σ) : Prop where
  sound : m.Sound
  tracked : m.world.Tracked o key d
  above : ∃ above, m.frames = above ++ base
  settled : m.alive s = true → meant s → m.Settled base o key d s

private theorem Carries.mono {m : Machine σ} (carries : Carries base o key d meant m)
    (among : ∀ s, fewer s → meant s) : Carries base o key d fewer m :=
  ⟨carries.sound, carries.tracked, carries.above, fun alive few =>
    carries.settled alive (among _ few)⟩

/-- A tracked property takes another value, and the list of its subscribers is returned. -/
theorem write_of_changes {w : World} (found : w.slot? o key = some slot)
    (listed : slot.dep = some d) (changes : slot.value.same value = false) :
    w.write o key value = ((w.modifyObject o (·.replace key value)).observe value, some d) := by
  simp [write_of_found found, listed, changes]

/-- Storing another value makes all live subscribers in the list wait. -/
private theorem settled_of_stores {m : Machine σ} (stores : m.StoresFor o key s)
    (tracked : m.world.Tracked o key d)
    (above : ∀ call, m.writing? = some call → ∃ above, call.caller.frames = above ++ base)
    (alive : m.step.alive s = true) : m.step.Settled base o key d s := by
  obtain ⟨call, slot, d', calling, rfl, rfl, found, listed, changes, entry⟩ := stores
  obtain rfl : d' = d := by
    obtain ⟨_, present, same⟩ := tracked
    obtain rfl := Option.some.inj (present.symm.trans found)
    exact Option.some.inj (listed.symm.trans same)
  obtain ⟨world, -⟩ := caller_of_writing calling
  obtain ⟨above, frames⟩ := above call calling
  let stored := (m.world.modifyObject call.root (·.replace call.key call.value)).observe call.value
  have written : m.step = Machine.notify { call.caller with world := stored } d' := by
    rw [step_of_writing calling, write, world, write_of_changes found listed changes]
  have still : s ∈ stored.entries d' := ((moves_observe _ _).grows.entries d').subset entry
  rw [written] at alive ⊢
  have waits : s ∈ (stored.entries d').filter (Machine.alive { call.caller with world := stored }) :=
    List.mem_filter.mpr ⟨still, alive_notify alive⟩
  intro x _ _ _
  refine ⟨?_, .inr ⟨_ :: above, congrArg (_ :: ·) frames, _, List.mem_cons_self, waits⟩⟩
  rw [entries_notify, if_pos rfl]
  exact waits

private theorem Carries.step {m : Machine σ} (carries : Carries base o key d meant m)
    (inside : base.length < m.frames.length) (unbroken : m.step.frames ≠ []) :
    Carries base o key d (fun s => meant s ∨ m.StoresFor o key s) m.step := by
  have turn := step_turn (m := m) fun _ => carries.sound.known
  have unbroken : m.step.frames = [] → m.step.failure = none := fun none => absurd none unbroken
  obtain ⟨above, frames⟩ := carries.above
  obtain ⟨first, rest, rfl⟩ : ∃ first rest, above = first :: rest := by
    cases above with
    | nil => simp [frames] at inside
    | cons first rest => exact ⟨first, rest, rfl⟩
  refine ⟨step_sound carries.sound, turn.tracked carries.tracked, turn.stays_above frames unbroken, ?_⟩
  intro s alive considered
  rcases turn.alive alive with before | ⟨unknown, -⟩
  · rcases considered with meant | stores
    · exact turn.settled carries.tracked frames unbroken alive (carries.sound.known before)
        (carries.settled before meant)
    · refine settled_of_stores stores carries.tracked (fun call calling => ?_) alive
      obtain ⟨-, -, -, top, added, below, due, same⟩ := caller_of_writing calling
      obtain ⟨-, rfl⟩ := List.cons.inj (due.symm.trans frames)
      exact ⟨added ++ rest, by rw [same]; exact (List.append_assoc ..).symm⟩
  · exact turn.settled_new carries.sound.world carries.tracked unknown unbroken

/-- The call itself settles those that have an entry at that moment. -/
private theorem carries_write {m : Machine σ} (sound : m.Sound) (calling : m.writing? = some call)
    (tracked : m.world.Tracked call.root call.key d) (unbroken : m.step.frames ≠ [])
    (above : ∃ above, m.step.frames = above ++ call.caller.frames) :
    Carries call.caller.frames call.root call.key d
      (fun s => m.StoresFor call.root call.key s ∨ ¬m.world.Known s) m.step := by
  have turn := step_turn (m := m) fun _ => sound.known
  have unbroken : m.step.frames = [] → m.step.failure = none := fun none => absurd none unbroken
  refine ⟨step_sound sound, turn.tracked tracked, above, ?_⟩
  rintro s alive (stores | unknown)
  · refine settled_of_stores stores tracked (fun call' same => ⟨[], ?_⟩) alive
    rw [Option.some.inj (same.symm.trans calling)]
    rfl
  · exact turn.settled_new sound.world tracked unknown unbroken

/-- When a call that changes a tracked property returns, every live watcher of the property
is listed there and remembers the current value, whatever the callbacks did in between, if
it was listed when the call, or a later one inside it, stored another value there, or if it
was made since. -/
theorem write_leaves_watchers_coherent {m : Machine σ} (reachable : m.Reachable)
    (calling : m.writing? = some call) (found : m.world.slot? call.root call.key = some slot)
    (tracked : slot.dep = some d) (changes : slot.value.same call.value = false)
    (returns : m.Returns call n) :
    ∃ now, (run n m).world.slot? call.root call.key = some now ∧ now.dep = some d ∧
      ∀ s x, (run n m).alive s = true → (run n m).world.watcher? s = some x →
        x.root = call.root → x.key = call.key →
        ((∃ i < n, (run i m).StoresFor call.root call.key s) ∨ ¬m.world.Known s) →
        s ∈ (run n m).world.entries d ∧ x.cached.Agrees now.value := by
  have sound := reachable_sound reachable
  obtain ⟨world, -, nonempty, -⟩ := caller_of_writing calling
  obtain ⟨positive, within, back⟩ := returns
  -- Nothing is broken off, as the frames of the caller are still there.
  have busy : ∀ i < n, (run (i + 1) m).frames ≠ [] := by
    intro i bound none
    rcases Nat.lt_or_eq_of_le (Nat.succ_le_of_lt bound) with before | rfl
    · have := within (i + 1) before (Nat.succ_pos i)
      simp [none] at this
    · exact nonempty (back.symm.trans none)
  have first : ∃ above, m.step.frames = above ++ call.caller.frames := by
    rw [step_of_writing calling, write, world, write_of_changes found tracked changes]
    exact ⟨[_], rfl⟩
  have carried : ∀ i < n, Carries call.caller.frames call.root call.key d
      (fun s => (∃ j < i + 1, (run j m).StoresFor call.root call.key s) ∨ ¬m.world.Known s)
      (run (i + 1) m) := by
    intro i bound
    have moving := busy i bound
    rw [run_succ] at moving ⊢
    induction i with
    | zero =>
      refine (carries_write sound calling ⟨slot, found, tracked⟩ moving first).mono ?_
      rintro s (⟨j, early, stores⟩ | unknown)
      · obtain rfl : j = 0 := Nat.lt_one_iff.mp early
        exact .inl stores
      · exact .inr unknown
    | succ i ih =>
      have before : i < n := Nat.lt_of_succ_lt bound
      have carries := ih before (run_succ i m ▸ busy i before)
      rw [← run_succ] at carries
      apply (carries.step (within (i + 1) bound (Nat.succ_pos i)) moving).mono
      rintro s (⟨j, early, stores⟩ | unknown)
      · rcases Nat.lt_or_eq_of_le (Nat.le_of_lt_succ early) with earlier | rfl
        · exact .inl (.inl ⟨j, earlier, stores⟩)
        · exact .inr stores
      · exact .inl (.inr unknown)
  obtain ⟨n, rfl⟩ : ∃ k, n = k + 1 := ⟨n - 1, (Nat.succ_pred_eq_of_pos positive).symm⟩
  obtain ⟨-, ⟨now, present, listed⟩, -, settled⟩ := carried n (Nat.lt_succ_self n)
  refine ⟨now, present, listed, ?_⟩
  intro s x alive watcher root key meant
  obtain ⟨entry, agrees | ⟨above, frames, f, member, -⟩⟩ := settled alive meant x watcher root key
  · exact ⟨entry, peek_of_slot present ▸ agrees⟩
  · have none : above = [] := List.append_left_eq_self.mp (frames.symm.trans back)
    rw [none] at member
    cases member

/-- All that is left to be done is that the program ends. -/
def finishing (m : Machine σ) : Bool :=
  match m.frames with
  | [.program .done] => true
  | _ => false

theorem frames_of_finishing {m : Machine σ} (finishing : m.finishing = true) :
    m.frames = [.program .done] := by
  unfold Machine.finishing at finishing
  split at finishing
  · assumption
  · cases finishing

/-- Two watchers of one property; the callback of the first writes the property once more
while the change is being told. -/
def nestedWrite : Program Unit :=
  .call (.act (.newObject [("n", .null)])) fun _ =>
  .call (.act (.observe (.object ⟨0⟩))) fun _ =>
  .call (.watch ⟨0⟩ "n" fun _ => .call (.write ⟨0⟩ "n" (.bool false)) fun _ => .done) fun _ =>
  .call (.watch ⟨0⟩ "n" fun _ => .done) fun _ =>
  .call (.write ⟨0⟩ "n" (.bool true)) fun _ => .done

/-- The machine about to make the outer write. -/
def nestedMachine : Machine Unit := run 4 (start { host := () } nestedWrite)

def nestedCall : WriteCall Unit :=
  ⟨{ nestedMachine with frames := [.program .done] }, ⟨0⟩, "n", .bool true⟩

private theorem nestedCall_due : nestedMachine.writing? = some nestedCall := by
  have due : nestedMachine.frames =
      [.program (.call (.write ⟨0⟩ "n" (.bool true)) fun _ => .done)] := rfl
  simp only [writing?, due, nestedCall]

private theorem nestedCall_returns : nestedMachine.Returns nestedCall 12 := by
  refine ⟨by decide, ?_, frames_of_finishing (by decide +kernel)⟩
  decide +kernel

theorem nested_write_leaves_watchers_coherent :
    ∃ (m : Machine Unit) (call : WriteCall Unit) (slot : Slot) (d : DepId) (n : Nat),
      m.Reachable ∧ m.writing? = some call ∧ m.world.slot? call.root call.key = some slot ∧
      slot.dep = some d ∧ slot.value.same call.value = false ∧ m.Returns call n ∧
      ∃ now, (run n m).world.slot? call.root call.key = some now ∧ now.dep = some d ∧
        ∀ s x, (run n m).alive s = true → (run n m).world.watcher? s = some x →
          x.root = call.root → x.key = call.key →
          ((∃ i < n, (run i m).StoresFor call.root call.key s) ∨ ¬m.world.Known s) →
          s ∈ (run n m).world.entries d ∧ x.cached.Agrees now.value := by
  have reachable : nestedMachine.Reachable :=
    reachable_run 4 (reachable_start (reachable_initial ()) rfl () nestedWrite)
  have found : nestedMachine.world.slot? nestedCall.root nestedCall.key =
      some ⟨"n", .null, some ⟨0⟩⟩ := by decide +kernel
  exact ⟨nestedMachine, nestedCall, _, ⟨0⟩, 12, reachable, nestedCall_due, found, rfl, rfl,
    nestedCall_returns,
    write_leaves_watchers_coherent reachable nestedCall_due found rfl rfl nestedCall_returns⟩

/-- The callback of a listed watcher adds an entry for another one, which was made before
the property was tracked and has missed a change. -/
def lateEntry : Program Unit :=
  .call (.act (.newObject [("n", .null)])) fun _ =>
  .call (.watch ⟨0⟩ "n" fun _ => .done) fun _ =>
  .call (.write ⟨0⟩ "n" (.bool false)) fun _ =>
  .call (.act (.observe (.object ⟨0⟩))) fun _ =>
  .call (.watch ⟨0⟩ "n" fun _ => .call (.register ⟨0⟩ ⟨0⟩) fun _ => .done) fun _ =>
  .call (.write ⟨0⟩ "n" (.bool true)) fun _ => .done

/-- The machine about to make the last write. -/
def lateMachine : Machine Unit := run 5 (start { host := () } lateEntry)

def lateCall : WriteCall Unit :=
  ⟨{ lateMachine with frames := [.program .done] }, ⟨0⟩, "n", .bool true⟩

private theorem lateCall_due : lateMachine.writing? = some lateCall := by
  have due : lateMachine.frames =
      [.program (.call (.write ⟨0⟩ "n" (.bool true)) fun _ => .done)] := rfl
  simp only [writing?, due, lateCall]

private theorem lateCall_returns : lateMachine.Returns lateCall 5 := by
  refine ⟨by decide, ?_, frames_of_finishing (by decide +kernel)⟩
  decide +kernel

/-- A watcher that gets its entry only while the change is being told waits for nothing, and
still remembers an old value when the call returns. -/
theorem late_entry_stays_stale :
    ∃ (m : Machine Unit) (call : WriteCall Unit) (slot now : Slot) (d : DepId) (n : Nat)
      (s : SubscriberId) (x : Watcher),
      m.Reachable ∧ m.writing? = some call ∧ m.world.slot? call.root call.key = some slot ∧
      slot.dep = some d ∧ slot.value.same call.value = false ∧ m.Returns call n ∧
      (run n m).alive s = true ∧ (run n m).world.watcher? s = some x ∧
      x.root = call.root ∧ x.key = call.key ∧ s ∈ (run n m).world.entries d ∧
      (run n m).world.slot? call.root call.key = some now ∧ ¬x.cached.Agrees now.value := by
  have reachable : lateMachine.Reachable :=
    reachable_run 5 (reachable_start (reachable_initial ()) rfl () lateEntry)
  refine ⟨lateMachine, lateCall, ⟨"n", .bool false, some ⟨0⟩⟩, ⟨"n", .bool true, some ⟨0⟩⟩, ⟨0⟩, 5,
    ⟨0⟩, ⟨⟨0⟩, "n", .null, .callback ⟨0⟩⟩, reachable, lateCall_due, ?_, rfl, rfl, lateCall_returns,
    ?_, ?_, rfl, rfl, ?_, ?_, ?_⟩
  · decide +kernel
  · decide +kernel
  · decide +kernel
  · decide +kernel
  · decide +kernel
  · simp [Value.Agrees, Value.same, Value.isNaN]

end Machine
end DataBinding
