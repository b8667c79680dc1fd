import DataBinding.Proofs.Coherence

/-! Circuits: properties whose watchers do nothing but write the value they receive into
other properties of the circuit, and possibly into their own. While a change runs through a
circuit, whatever is in progress above the call that brought it is one of two errands: telling
watchers, or writing the value into properties. One step does one of five things. -/
namespace DataBinding

variable {σ : Type}

/-- A property, by its object and its key. -/
abbrev Place := ObjectId × String

/-- Writes a value into properties, one after the other. -/
def Program.copy (v : Value) : List Place → Program σ
  | [] => .done
  | (o, key) :: rest => .call (.write o key v) fun _ => copy v rest

/-- Properties, watchers, and the properties into which each watcher writes what it receives. -/
structure Circuit where
  places : List Place
  watchers : List SubscriberId
  targets : SubscriberId → List Place

namespace World

/-- The value of a property, if it exists. -/
def value? (w : World) (p : Place) : Option Value := (w.slot? p.1 p.2).map (·.value)

/-- The subscriber is a watcher of the property. -/
def Watches (w : World) (s : SubscriberId) (p : Place) : Prop :=
  ∃ x, w.watcher? s = some x ∧ (x.root, x.key) = p

theorem peek_of_value? {w : World} (held : w.value? p = some v) : w.peek p.1 p.2 = v :=
  congrArg (·.getD .undefined) held

theorem value?_replace {w : World} (found : w.slot? o key = some slot) (v : Value) (q : Place) :
    (w.modifyObject o (·.replace key v)).value? q =
      if q = (o, key) then some v else w.value? q := by
  by_cases same : q = (o, key)
  · subst same
    simp [value?, slot?_replace_self v found]
  · rw [if_neg same, value?, value?, slot?, slot?]
    rcases properties_modifyObject_cases w o (·.replace key v) q.1 with kept | ⟨here, stored⟩
    · rw [kept]
    · have other : q.2 ≠ key := fun named => same (Prod.ext here named)
      rw [stored, Properties.find?_replace]
      simp [other]

end World

namespace Circuit
open World Machine

/-- The properties are tracked. Whoever is alive and listed with one of them is one of its
watchers, and each of these is listed there, once or more often. The watchers remember the
values of their properties, and their callbacks write what they receive into their targets. -/
structure Wired (c : Circuit) (m : Machine σ) : Prop where
  tracked : p ∈ c.places → ∃ d, m.world.Tracked p.1 p.2 d
  alive : s ∈ c.watchers → m.alive s = true
  listed : p ∈ c.places → m.world.Tracked p.1 p.2 d → m.alive s = true →
    (s ∈ m.world.entries d ↔ s ∈ c.watchers ∧ m.world.Watches s p)
  copies : s ∈ c.watchers → ∃ x i, m.world.watcher? s = some x ∧ (x.root, x.key) ∈ c.places ∧
    x.cached.Agrees (m.world.peek x.root x.key) ∧ x.reaction = .callback i ∧
    m.callbacks.get? i.index = some fun v => .copy v (c.targets s)
  targets : s ∈ c.watchers → q ∈ c.targets s → q ∈ c.places

end Circuit

/-- A call in progress while a value runs through a circuit. -/
inductive Errand where
  /-- Telling watchers: all that were to be told, and those that still are. -/
  | tell (told rest : List SubscriberId)
  /-- Writing the value into properties: those that are left. -/
  | copy (rest : List Place)

namespace Errand

def frame (v : Value) : Errand → Frame σ
  | .tell told rest => .notifying told rest
  | .copy rest => .program (.copy v rest)

/-- Whom the errand is still going to tell. -/
def waits : Errand → List SubscriberId
  | .tell _ rest => rest
  | .copy _ => []

/-- Where the errand is still going to write. -/
def due : Errand → List Place
  | .tell _ _ => []
  | .copy rest => rest

end Errand

namespace Circuit
open World Machine

/-- What one step does with the world and the errands, and whose reaction it starts. -/
inductive Step (c : Circuit) (origin : World) (v : Value) (w : World) :
    List Errand → Option SubscriberId → World → List Errand → Prop where
  /-- An errand is finished. -/
  | finishes (told : t.waits = []) (written : t.due = []) : Step c origin v w (t :: ts) none w ts
  /-- A property holds an identical value already. -/
  | passes (held : w.value? p = some u) (same : u.same v = true) :
      Step c origin v w (.copy (p :: rest) :: ts) none w (.copy rest :: ts)
  /-- A property takes the value, and its watchers are going to be told. -/
  | stores (held : w.value? p = some u) (news : u.same v = false)
      (values : ∀ q, w'.value? q = if q = p then some v else w.value? q)
      (subscribers : w'.subscribers = w.subscribers)
      (all : ∀ s, s ∈ live ↔ s ∈ c.watchers ∧ origin.Watches s p) :
      Step c origin v w (.copy (p :: rest) :: ts) none w' (.tell live live :: .copy rest :: ts)
  /-- A watcher remembers an identical value. -/
  | skips (watching : w.watcher? s = some x) (known : x.cached.same v = true) :
      Step c origin v w (.tell told (s :: rest) :: ts) none w (.tell told rest :: ts)
  /-- A watcher receives the value. -/
  | fires (watching : w.watcher? s = some x) (news : x.cached.same v = false) :
      Step c origin v w (.tell told (s :: rest) :: ts) (some s) (w.remember s v)
        (.copy (c.targets s) :: .tell told rest :: ts)

/-- A machine in which a value runs through a circuit, called by another machine that goes on
when the errands are done. -/
structure Runs (c : Circuit) (caller : Machine σ) (v : Value) (m : Machine σ) (ts : List Errand) :
    Prop where
  frames : m.frames = ts.map (Errand.frame v) ++ caller.frames
  callbacks : m.callbacks = caller.callbacks
  custody : m.world.custody = caller.world.custody
  tracked : caller.world.Tracked o key d → m.world.Tracked o key d
  watcher : caller.world.watcher? s = some x →
    ∃ cached, m.world.watcher? s = some { x with cached := cached }
  entries : caller.alive s = true → (s ∈ m.world.entries d ↔ s ∈ caller.world.entries d)
  kept : .tell told rest ∈ ts → s ∈ told → caller.alive s = true
  due : q ∈ ts.flatMap Errand.due → q ∈ c.places
  waits : s ∈ ts.flatMap Errand.waits → s ∈ c.watchers ∧
    ∀ p, caller.world.Watches s p → m.world.value? p = some v

namespace Runs

variable {c : Circuit} {caller m : Machine σ} {v : Value} {ts : List Errand}

theorem begin (c : Circuit) (caller : Machine σ) (v : Value) : c.Runs caller v caller [] where
  frames := rfl
  callbacks := rfl
  custody := rfl
  tracked := id
  watcher found := ⟨_, found⟩
  entries _ := Iff.rfl
  kept member := absurd member List.not_mem_nil
  due member := absurd member List.not_mem_nil
  waits member := absurd member List.not_mem_nil

/-- The errands keep nobody alive who was not. -/
theorem alive (runs : c.Runs caller v m ts) (s : SubscriberId) : m.alive s = caller.alive s := by
  rw [Bool.eq_iff_iff, alive_iff, holds_of_custody runs.custody, runs.frames]
  constructor
  · rintro (held | ⟨f, member, keeps⟩)
    · exact alive_iff.mpr (.inl held)
    · rcases List.mem_append.mp member with above | below
      · obtain ⟨t, task, rfl⟩ := List.mem_map.mp above
        cases t with
        | tell told rest => exact runs.kept task (List.contains_iff_mem.mp keeps)
        | copy rest => cases keeps
      · exact alive_iff.mpr (.inr ⟨f, below, keeps⟩)
  · intro alive
    exact (alive_iff.mp alive).imp_right fun ⟨f, below, keeps⟩ =>
      ⟨f, List.mem_append_right _ below, keeps⟩

/-- Fewer errands. -/
theorem fewer {m' : Machine σ} {ts' : List Errand} (runs : c.Runs caller v m ts)
    (frames : m'.frames = ts'.map (Errand.frame v) ++ caller.frames)
    (callbacks : m'.callbacks = m.callbacks) (world : m'.world = m.world)
    (kept : ∀ {told rest}, .tell told rest ∈ ts' → ∃ rest', .tell told rest' ∈ ts)
    (due : ts'.flatMap Errand.due ⊆ ts.flatMap Errand.due)
    (waits : ts'.flatMap Errand.waits ⊆ ts.flatMap Errand.waits) : c.Runs caller v m' ts' where
  frames := frames
  callbacks := callbacks.trans runs.callbacks
  custody := world ▸ runs.custody
  tracked := world ▸ runs.tracked
  watcher := world ▸ runs.watcher
  entries := world ▸ runs.entries
  kept member listed := by
    obtain ⟨rest', before⟩ := kept member
    exact runs.kept before listed
  due member := runs.due (due member)
  waits member := world ▸ runs.waits (waits member)

/-- Who is alive and listed with a property of the circuit is one of its watchers. -/
private theorem listed (wired : c.Wired caller) (runs : c.Runs caller v m ts) (among : p ∈ c.places)
    (place : caller.world.Tracked p.1 p.2 d) (s : SubscriberId) :
    s ∈ m.world.entries d ∧ m.alive s = true ↔ s ∈ c.watchers ∧ caller.world.Watches s p := by
  rw [runs.alive]
  constructor
  · rintro ⟨entry, alive⟩
    exact (wired.listed among place alive).mp ((runs.entries alive).mp entry)
  · intro watches
    have alive := wired.alive watches.1
    exact ⟨(runs.entries alive).mpr ((wired.listed among place alive).mpr watches), alive⟩

/-- A property takes the value, and its watchers are told next. -/
private theorem store {w : World} {live : List SubscriberId} (wired : c.Wired caller)
    (runs : c.Runs caller v m ts)
    (stored : w = (m.world.modifyObject p.1 (·.replace p.2 v)).observe v)
    (values : ∀ q, w.value? q = if q = p then some v else m.world.value? q)
    (all : ∀ s, s ∈ live ↔ s ∈ c.watchers ∧ caller.world.Watches s p)
    (listed : live = (w.entries d).filter (Machine.alive { m with world := w })) :
    c.Runs caller v (Machine.notify { m with world := w } d) (.tell live live :: ts) := by
  have custody : w.custody = m.world.custody := stored ▸ custody_observe _ v
  have alive : ∀ s, Machine.alive { m with world := w } s = caller.alive s := by
    intro s
    have same : Machine.alive { m with world := w } s = m.alive s := alive_of_custody custody rfl
    exact same.trans (runs.alive s)
  constructor
  · rw [listed]
    exact congrArg (_ :: ·) runs.frames
  · exact runs.callbacks
  · exact custody.trans runs.custody
  · intro o key e before
    obtain ⟨slot, found, tracked⟩ := runs.tracked before
    exact stored ▸ tracked_store found tracked p.1 p.2 v
  · intro s x before
    obtain ⟨cached, watching⟩ := runs.watcher before
    have subscribers : w.subscribers = m.world.subscribers := stored ▸ subscribers_observeAll _ _
    exact ⟨cached, (watcher?_of_subscribers subscribers s).trans watching⟩
  · intro s e alive'
    have same : World.entries { m with world := w }.world e = m.world.entries e :=
      stored ▸ entries_observe _ v e
    rw [entries_notify, ← runs.entries alive', same]
    split
    · rw [List.mem_filter, alive, and_iff_left alive']
    · exact Iff.rfl
  · intro _ _ _ member told
    rcases List.mem_cons.mp member with new | old
    · exact wired.alive ((all _).mp ((Errand.tell.inj new).1 ▸ told)).1
    · exact runs.kept old told
  · intro q member
    exact runs.due member
  · intro s member
    rcases List.mem_append.mp member with new | old
    · obtain ⟨watcher, x, watching, here⟩ := (all s).mp new
      refine ⟨watcher, ?_⟩
      rintro q ⟨x', watching', rfl⟩
      obtain rfl := Option.some.inj (watching.symm.trans watching')
      exact (values _).trans (if_pos here)
    · obtain ⟨watcher, holds⟩ := runs.waits old
      refine ⟨watcher, fun q watches => (values q).trans ?_⟩
      split
      · rfl
      · exact holds q watches

/-- A property of the circuit holds an identical value already and nothing happens, or it
takes the value and its watchers are going to be told. -/
theorem write (wired : c.Wired caller) (runs : c.Runs caller v m ts) (among : p ∈ c.places) :
    (∃ u, m.world.value? p = some u ∧ u.same v = true ∧ m.write p.1 p.2 v = m) ∨
    ∃ u live, m.world.value? p = some u ∧ u.same v = false ∧
      c.Runs caller v (m.write p.1 p.2 v) (.tell live live :: ts) ∧
      (∀ q, (m.write p.1 p.2 v).world.value? q = if q = p then some v else m.world.value? q) ∧
      (m.write p.1 p.2 v).world.subscribers = m.world.subscribers ∧
      ∀ s, s ∈ live ↔ s ∈ c.watchers ∧ caller.world.Watches s p := by
  obtain ⟨d, place⟩ := wired.tracked among
  obtain ⟨slot, found, tracked⟩ := runs.tracked place
  have held : m.world.value? p = some slot.value := by simp [value?, found]
  cases same : slot.value.same v with
  | true =>
    have stays : m.world.write p.1 p.2 v = (m.world, none) := by
      simp [write_of_found found, tracked, same]
    exact .inl ⟨_, held, same, by rw [Machine.write, stays]⟩
  | false =>
    right
    let stored := (m.world.modifyObject p.1 (·.replace p.2 v)).observe v
    let live := (stored.entries d).filter (Machine.alive { m with world := stored })
    have written : m.write p.1 p.2 v = Machine.notify { m with world := stored } d := by
      rw [Machine.write, write_of_changes found tracked same]
    have values : ∀ q, stored.value? q = if q = p then some v else m.world.value? q := fun q =>
      (value_observeAll _ [v] q.1 q.2).trans (value?_replace found v q)
    have all : ∀ s, s ∈ live ↔ s ∈ c.watchers ∧ caller.world.Watches s p := by
      intro s
      have entries : stored.entries d = m.world.entries d := entries_observe _ v d
      have alive : Machine.alive { m with world := stored } s = m.alive s :=
        alive_of_custody (custody_observe _ v) rfl
      rw [List.mem_filter, entries, alive]
      exact runs.listed wired among place s
    rw [written]
    exact ⟨slot.value, live, held, same, runs.store wired rfl values all rfl, values,
      subscribers_observeAll _ _, all⟩

/-- Telling a watcher with a callback. -/
private theorem update_callback {m : Machine σ} (found : m.world.watcher? s = some x)
    (held : m.world.peek x.root x.key = v) (reaction : x.reaction = .callback i)
    (callback : m.callbacks.get? i.index = some f) :
    m.update s = if x.cached.same v then m else
      { m with world := m.world.remember s v, frames := .program (f v) :: m.frames } := by
  have subscriber : m.world.subscriber? s = some (.watcher x) := subscriber_of_watcher found
  simp only [update, subscriber, refresh, read_enter_none, leave_enter, held]
  cases x.cached.same v with
  | true => rfl
  | false => simp [reaction, Machine.invoke, callback, push]

/-- The next watcher is told. -/
private theorem tell (wired : c.Wired caller)
    (runs : c.Runs caller v m (.tell told (s :: rest) :: ts)) :
    ∃ ts', c.Runs caller v m.step ts' ∧
      c.Step caller.world v m.world (.tell told (s :: rest) :: ts) (m.fires?.map (·.1))
        m.step.world ts' := by
  have due : m.frames = .notifying told (s :: rest) :: (ts.map (Errand.frame v) ++ caller.frames) :=
    runs.frames
  obtain ⟨watcher, holds⟩ := runs.waits (s := s) (by simp [Errand.waits])
  obtain ⟨x, i, watching₀, -, -, reaction, callback⟩ := wired.copies watcher
  obtain ⟨cached, watching⟩ := runs.watcher watching₀
  have held : m.world.peek x.root x.key = v := peek_of_value? (holds _ ⟨x, watching₀, rfl⟩)
  let next : Machine σ :=
    { m with frames := (Errand.tell told rest :: ts).map (Errand.frame v) ++ caller.frames }
  have later : c.Runs caller v next (.tell told rest :: ts) := by
    refine runs.fewer rfl rfl rfl ?_ (fun _ => id) ?_
    · intro told' rest' member
      rcases List.mem_cons.mp member with new | old
      · obtain ⟨rfl, -⟩ := Errand.tell.inj new
        exact ⟨_, List.mem_cons_self⟩
      · exact ⟨_, List.mem_cons_of_mem _ old⟩
    · exact List.subset_cons_self _ _
  have stepped : m.step = if cached.same v then next else
      { next with world := m.world.remember s v,
                  frames := .program (.copy v (c.targets s)) :: next.frames } := by
    simp only [step, due]
    exact update_callback (m := next) watching held reaction (runs.callbacks ▸ callback)
  have fires : m.fires?.map (·.1) = if cached.same v then none else some s := by
    have told : m.told? = some s := by simp only [told?, due]
    cases known : cached.same v <;> simp [fires?, told, watching, held, known]
  rw [stepped, fires]
  cases known : cached.same v with
  | true => exact ⟨_, later, .skips watching known⟩
  | false =>
    simp only [Bool.false_eq_true, if_false]
    refine ⟨.copy (c.targets s) :: .tell told rest :: ts, ?_, .fires watching known⟩
    constructor
    · rfl
    · exact later.callbacks
    · exact later.custody
    · exact later.tracked
    · intro s' x' before
      obtain ⟨cached', now⟩ := later.watcher before
      have now : m.world.watcher? s' = some { x' with cached := cached' } := now
      by_cases here : s = s'
      · exact ⟨v, by rw [watcher?_remember, if_pos here, now]; rfl⟩
      · exact ⟨cached', by rw [watcher?_remember, if_neg here, now]⟩
    · exact later.entries
    · intro _ _ _ member listed
      exact later.kept ((List.mem_cons.mp member).resolve_left (by simp)) listed
    · intro q member
      rcases List.mem_append.mp member with new | old
      · exact wired.targets watcher new
      · exact later.due old
    · exact later.waits

/-- One step finishes an errand or takes it one further. -/
protected theorem step (wired : c.Wired caller) (runs : c.Runs caller v m (t :: ts)) :
    ∃ ts', c.Runs caller v m.step ts' ∧
      c.Step caller.world v m.world (t :: ts) (m.fires?.map (·.1)) m.step.world ts' := by
  have finished : t.waits = [] → t.due = [] →
      m.step = { m with frames := ts.map (Errand.frame v) ++ caller.frames } →
      m.fires? = none → ∃ ts', c.Runs caller v m.step ts' ∧
        c.Step caller.world v m.world (t :: ts) (m.fires?.map (·.1)) m.step.world ts' := by
    intro told written stepped silent
    rw [stepped, silent]
    refine ⟨ts, runs.fewer rfl rfl rfl (fun member => ⟨_, List.mem_cons_of_mem _ member⟩) ?_ ?_,
      .finishes told written⟩
    · exact List.subset_append_right _ _
    · exact List.subset_append_right _ _
  cases t with
  | tell told rest =>
    cases rest with
    | nil =>
      have due : m.frames = .notifying told [] :: (ts.map (Errand.frame v) ++ caller.frames) :=
        runs.frames
      exact finished rfl rfl (by simp only [step, due]) (by simp [fires?, told?, due])
    | cons s rest => exact runs.tell wired
  | copy rest =>
    cases rest with
    | nil =>
      have due : m.frames = .program .done :: (ts.map (Errand.frame v) ++ caller.frames) :=
        runs.frames
      exact finished rfl rfl (by simp only [step, due]) (by simp [fires?, told?, due])
    | cons p rest =>
      have due : m.frames = .program (.call (.write p.1 p.2 v) fun _ => .copy v rest) ::
          (ts.map (Errand.frame v) ++ caller.frames) := runs.frames
      let next : Machine σ :=
        { m with frames := (Errand.copy rest :: ts).map (Errand.frame v) ++ caller.frames }
      have later : c.Runs caller v next (.copy rest :: ts) := by
        refine runs.fewer rfl rfl rfl ?_ (List.subset_cons_self _ _) (fun _ => id)
        intro told' rest' member
        exact ⟨_, List.mem_cons_of_mem _ ((List.mem_cons.mp member).resolve_left (by simp))⟩
      have stepped : m.step = next.write p.1 p.2 v := by
        simp only [step, due]
        rfl
      have nobody : m.told? = none := by simp only [told?, due]
      have silent : m.fires? = none := by simp [fires?, nobody]
      rw [stepped, silent]
      have among : p ∈ c.places := runs.due (by simp [Errand.due])
      rcases later.write wired among with
        ⟨u, held, same, stays⟩ | ⟨u, live, held, news, stored, values, subscribers, all⟩
      · rw [stays]
        exact ⟨_, later, .passes held same⟩
      · exact ⟨_, stored, .stores held news values subscribers all⟩

end Runs

end Circuit
end DataBinding
