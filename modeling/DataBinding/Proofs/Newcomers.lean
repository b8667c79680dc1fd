import DataBinding.Proofs.Enlisting
import DataBinding.Proofs.Panics

/-! New watchers. Whoever makes a watcher, it begins with what its property holds at that moment.
The watchers that bind pages write into them; a watcher that runs a callback has been handed one, and
callbacks are there for good. -/
namespace DataBinding
namespace World

/-- Whatever watchers have been added remember what their properties hold and write into pages, and
no object has changed. -/
structure Equips (w w' : World) : Prop where
  objects : w'.objects = w.objects
  watchers : w'.watcher? s = some x → w.watcher? s = some x ∨
    x.cached = w.peek x.root x.key ∧ ∀ c, x.reaction ≠ .callback c

namespace Equips

theorem of_same {w w' : World} (objects : w'.objects = w.objects)
    (subscribers : w'.subscribers = w.subscribers) : Equips w w' where
  objects := objects
  watchers found := .inl ((watcher?_of_subscribers subscribers _).symm.trans found)

theorem trans {a b c : World} (first : Equips a b) (second : Equips b c) : Equips a c where
  objects := second.objects.trans first.objects
  watchers found := by
    rcases second.watchers found with before | ⟨remembers, writes⟩
    · exact first.watchers before
    · exact .inr ⟨remembers.trans (peek_of_objects first.objects _ _), writes⟩

theorem watch (w : World) (root : ObjectId) (key : String) (writes : ∀ c, reaction ≠ .callback c) :
    Equips w (w.watch root key reaction).1 where
  objects := objects_watch w root key reaction
  watchers {s x} found := by
    rcases watcher?_of_push (subscribers_watch w root key reaction) found with before | same
    · exact .inl before
    · obtain rfl : w.newWatcher root key reaction = x := Option.some.inj same
      exact .inr ⟨rfl, writes⟩

theorem binding (data : ObjectId) (n : NodeId) : BindingKeeps data n fun a _ b => Equips a b where
  nil _ := of_same rfl rfl
  append := trans
  read w key := of_same (objects_read w data key) (subscribers_read w data key)
  setText w content := of_same (objects_setText w n content) (subscribers_setText w n content)
  setControlValue _ _ := of_same rfl rfl
  writeBack _ _ := of_same rfl rfl
  watch w key _ writes := watch w data key writes

theorem bind {w w' : World} (bound : w.bind data root = some (w', added)) : Equips w w' :=
  BindingKeeps.bind (binding data) bound

end Equips

/-- A mount equips the world in which its data have been observed. -/
theorem equips_mount {w w' : World} (mounted : w.mount element v = some (w', vm)) :
    Equips ((w.dataObject v).1.observe (.object (w.dataObject v).2)) w' := by
  obtain ⟨bound, watchers, ran, rfl, -⟩ := mount_eq_some mounted
  exact (Equips.bind ran).trans (.of_same rfl rfl)

/-- The watchers that a request adds without a callback. -/
theorem watchers_perform {w w' : World} (done : w.perform a = some (w', reply))
    (found : w'.watcher? s = some x) : w.watcher? s = some x ∨
      x.cached = w'.peek x.root x.key ∧ ∀ c, x.reaction ≠ .callback c := by
  have same : w'.subscribers = w.subscribers → w.watcher? s = some x := fun subscribers =>
    (watcher?_of_subscribers subscribers s).symm.trans found
  have equipped : ∀ {w₀}, Equips w₀ w' → w₀.subscribers = w.subscribers → w.watcher? s = some x ∨
      x.cached = w'.peek x.root x.key ∧ ∀ c, x.reaction ≠ .callback c := by
    intro w₀ equips subscribers
    rcases equips.watchers found with before | ⟨remembers, writes⟩
    · exact .inl ((watcher?_of_subscribers subscribers s).symm.trans before)
    · exact .inr ⟨remembers.trans (peek_of_objects equips.objects _ _).symm, writes⟩
  have mounted : ∀ {w₀ : World} {element v vm}, w₀.mount element v = some (w', vm) →
      w₀.subscribers = w.subscribers → w.watcher? s = some x ∨
        x.cached = w'.peek x.root x.key ∧ ∀ c, x.reaction ≠ .callback c := by
    intro w₀ element v vm ran subscribers
    refine equipped (equips_mount ran) ?_
    obtain ⟨objects, planted⟩ := dataObject_eq w₀ v
    exact (subscribers_observeAll _ _).trans (by rw [planted, ← subscribers])
  cases a with
  | build json =>
    cases done
    obtain ⟨objects, built⟩ := build_eq w json
    exact .inl (same (by rw [built]))
  | read o key =>
    cases done
    exact .inl (same (subscribers_read w o key))
  | observe v =>
    cases done
    exact .inl (same (subscribers_observeAll w [v]))
  | depend d =>
    cases done
    refine .inl (same ?_)
    unfold depend
    split <;> rfl
  | setText n content =>
    cases done
    exact .inl (same (subscribers_setText w n content))
  | bind b root =>
    rcases perform_bind_cases done with rfl | ⟨binder, bound, watchers, -, ran, rfl⟩
    · exact .inl found
    · exact equipped ((Equips.bind ran).trans (.of_same rfl rfl)) rfl
  | detach b =>
    rcases perform_detach_cases done with rfl | ⟨binder, -, rfl⟩ <;> exact .inl found
  | mount element v =>
    obtain ⟨vm, ran⟩ := perform_mount_eq_some done
    exact mounted ran rfl
  | mountOptions options document =>
    rcases perform_mountOptions_cases done with ⟨rfl, -⟩ | ⟨vm, accepted⟩
    · exact .inl found
    · obtain ⟨element, ran⟩ := mountOptions_eq_some accepted
      obtain ⟨objects, built⟩ := build_eq w options.data
      exact mounted ran (by rw [built])
  | newObject | newDep | leave | release | newText | newElement | appendChild | setAttribute
  | setControlValue | newBinder | releaseBinder | releaseBundle | releaseViewModel =>
    cases done
    exact .inl found

end World

namespace Machine
open World

variable {σ : Type}

/-- A step hands over callbacks, and watchers that run them, but takes none away; a watcher that it
adds remembers what its property holds. -/
structure Hands (m m' : Machine σ) : Prop where
  kept : m.callbacks.get? i = some callback → m'.callbacks.get? i = some callback
  watchers : m'.world.watcher? s = some x →
    (∃ y, m.world.watcher? s = some y ∧ y.root = x.root ∧ y.key = x.key ∧ y.reaction = x.reaction) ∨
    x.cached = m'.world.peek x.root x.key ∧
      ∀ c, x.reaction = .callback c → ∃ callback, m'.callbacks.get? c.index = some callback

namespace Hands

theorem of_same {m m' : Machine σ} (callbacks : m'.callbacks = m.callbacks)
    (subscribers : m'.world.subscribers = m.world.subscribers) : Hands m m' where
  kept found := callbacks ▸ found
  watchers found :=
    .inl ⟨_, (watcher?_of_subscribers subscribers _).symm.trans found, rfl, rfl, rfl⟩

theorem write (m : Machine σ) (o : ObjectId) (key : String) (v : Value) :
    Hands m (m.write o key v) := by
  obtain ⟨-, subscribers, -⟩ := write_same m.world o key v
  unfold Machine.write
  cases written : m.world.write o key v with
  | mk w d? =>
    rw [written] at subscribers
    cases d? <;> exact of_same rfl subscribers

/-- A watcher that is told reacts as before. -/
theorem update (m : Machine σ) (s : SubscriberId) : Hands m (m.update s) := by
  rcases update_cases m s with ⟨added, same, -, -⟩ | ⟨x, added, found, -, -, same⟩
  · exact of_same (by rw [same]) (by rw [same])
  · rw [same]
    refine ⟨id, fun {t y} present => .inl ?_⟩
    obtain ⟨-, -, subscribers⟩ := react_same (m.world.remember s (m.world.peek x.root x.key))
      x.reaction (m.world.peek x.root x.key)
    rw [watcher?_of_subscribers subscribers, watcher?_remember] at present
    by_cases told : s = t
    · subst told
      rw [if_pos rfl, found] at present
      obtain rfl := Option.some.inj present
      exact ⟨x, found, rfl, rfl, rfl⟩
    · rw [if_neg told] at present
      exact ⟨y, present, rfl, rfl, rfl⟩

/-- A callback is handed over, and whatever watcher is new runs it. -/
theorem handsOver {m m' : Machine σ} (callbacks : m'.callbacks = m.callbacks.push callback)
    (watchers : ∀ s x, m'.world.watcher? s = some x → m.world.watcher? s = some x ∨
      x.cached = m'.world.peek x.root x.key ∧ x.reaction = .callback ⟨m.callbacks.size⟩) :
    Hands m m' where
  kept {i callback} found := by
    have inside : i < m.callbacks.size := Arena.lt_size_of_get? found
    rw [callbacks, Arena.get?_push, if_neg (Nat.ne_of_lt inside)]
    exact found
  watchers {s x} found := by
    rcases watchers s x found with before | ⟨remembers, reacts⟩
    · exact .inl ⟨x, before, rfl, rfl, rfl⟩
    · refine .inr ⟨remembers, fun c same => ⟨callback, ?_⟩⟩
      obtain rfl := Reaction.callback.inj (reacts.symm.trans same)
      rw [callbacks, Arena.get?_push, if_pos rfl]

/-- What calls are in progress does not matter. -/
private theorem framed {m m' : Machine σ} (hands : Hands { m with frames := begun } m') :
    Hands m m' :=
  ⟨hands.kept, hands.watchers⟩

theorem of_deed {m m' : Machine σ} (deed : Deed m m') : Hands m m' := by
  cases deed with
  | rests world callbacks => exact of_same callbacks (by rw [world])
  | hides targets fewer world callbacks => exact of_same callbacks (by rw [world])
  | acts due done callbacks =>
    refine ⟨fun found => callbacks ▸ found, fun {s x} found => ?_⟩
    rcases watchers_perform done found with before | ⟨remembers, writes⟩
    · exact .inl ⟨x, before, rfl, rfl, rfl⟩
    · exact .inr ⟨remembers, fun c same => absurd same (writes c)⟩
  | subscribes callback world callbacks =>
    refine handsOver callbacks fun s x found => .inl ?_
    have pushed : m'.world.subscribers = m.world.subscribers.push (.host ⟨m.callbacks.size⟩) := by
      rw [world]
      rfl
    exact (watcher?_of_push pushed found).resolve_right nofun
  | watches root key callback world callbacks =>
    refine handsOver callbacks fun s x found => ?_
    rw [world] at found ⊢
    have pushed := subscribers_watch m.world root key (.callback ⟨m.callbacks.size⟩)
    rcases watcher?_of_push pushed found with before | same
    · exact .inl before
    · obtain rfl := Option.some.inj same
      exact .inr ⟨(peek_of_objects (objects_watch m.world root key _) root key).symm, rfl⟩
  | listens n callback world callbacks =>
    exact handsOver callbacks fun s x found => .inl (by rw [world] at found; exact found)
  | registers d s due alive world callbacks => exact of_same callbacks (by rw [world]; rfl)
  | enters _ _ _ _ world callbacks => exact of_same callbacks (by rw [world]; rfl)
  | types n text world callbacks => exact of_same callbacks (by rw [world]; rfl)
  | writes => exact framed (write { m with frames := _ } _ _ _)
  | notifies => exact of_same rfl rfl
  | tells => exact framed (update { m with frames := _ } _)

theorem step (m : Machine σ) : Hands m m.step := of_deed (step_deed m)

end Hands

/-- A watcher that a step adds remembers what its property holds. -/
theorem cached_of_new {m : Machine σ} (new : ¬m.world.Known s)
    (found : m.step.world.watcher? s = some x) : x.cached = m.step.world.peek x.root x.key := by
  rcases (Hands.step m).watchers found with ⟨y, before, -⟩ | ⟨remembers, -⟩
  · exact absurd (known_of_watcher before) new
  · exact remembers

/-- Every watcher that runs a callback has been handed one. -/
theorem exists_callback {m : Machine σ} (reachable : m.Reachable)
    (found : m.world.watcher? s = some x) (reacts : x.reaction = .callback c) :
    ∃ callback, m.callbacks.get? c.index = some callback := by
  obtain ⟨host, led⟩ := reachable
  induction led generalizing x with
  | refl => simp [watcher?, subscriber?, Arena.get?, Arena.empty] at found
  | @step a _ _ ih =>
    have hands := Hands.step a
    rcases hands.watchers found with ⟨y, before, -, -, same⟩ | ⟨-, handed⟩
    · obtain ⟨callback, present⟩ := ih before (same.trans reacts)
      exact ⟨callback, hands.kept present⟩
    · exact handed c reacts
  | start _ _ _ _ _ ih => exact ih found reacts

end Machine
end DataBinding
