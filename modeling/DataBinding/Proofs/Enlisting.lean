import DataBinding.Proofs.Reactive

/-! The entries of watchers. As long as the host program adds no watcher to a list and puts none
onto the stack by itself, a watcher collects during its first read only: it has one entry in the
list of the property that it watches, if that was tracked then, and no entry anywhere else. -/
namespace DataBinding

namespace World

theorem tracked_iff {w : World} : w.Tracked o key d ↔ (w.properties o).dep? key = some d :=
  Option.bind_eq_some_iff.symm

/-- What happens to the entries of watchers while nobody is told of a change. -/
structure Enlists (w w' : World) : Prop where
  moves : Moves w w'
  /-- No watcher comes onto the stack of collecting subscribers. -/
  stack : some s ∈ w'.targets → w'.watcher? s = some x → some s ∈ w.targets
  /-- A watcher that is not on it has the entries that it had. -/
  kept : w.watcher? s = some x → some s ∉ w.targets →
    (w'.entries d).count s = (w.entries d).count s
  /-- A new one has an entry in the list of what it watches, and no other. -/
  fresh : ¬w.Known s → w'.watcher? s = some x →
    (w'.entries d).count s = if (w'.properties x.root).dep? x.key = some d then 1 else 0

namespace Enlists

/-- The lists and the subscribers stay as they are. -/
theorem of_same {w w' : World} (moves : Moves w w') (subscribers : w'.subscribers = w.subscribers)
    (entries : ∀ d, w'.entries d = w.entries d)
    (targets : ∀ s, some s ∈ w'.targets → some s ∈ w.targets) : Enlists w w' where
  moves := moves
  stack collecting _ := targets _ collecting
  kept _ _ := by rw [entries]
  fresh unknown found := by
    have known := known_of_watcher found
    rw [Known, subscribers] at known
    exact absurd known unknown

theorem refl (w : World) : Enlists w w :=
  of_same .refl rfl (fun _ => rfl) (fun _ => id)

/-- What comes first adds no subscriber, or what follows leaves the properties alone that new
watchers watch. -/
theorem trans {a b c : World} (sound : a.Sound) (first : Enlists a b) (second : Enlists b c)
    (apart : b.subscribers = a.subscribers ∨ c.objects = b.objects) : Enlists a c where
  moves := first.moves.trans second.moves
  stack collecting found := by
    have between := second.stack collecting found
    have known := (first.moves.sound sound).targets between
    exact first.stack between (second.moves.grows.watcher_of_known known found)
  kept {s x d} found away := by
    have between := first.moves.grows.watcher found
    have still : some s ∉ b.targets := fun collecting => away (first.stack collecting between)
    rw [second.kept between still, first.kept found away]
  fresh {s x d} unknown found := by
    by_cases known : b.Known s
    · have between := second.moves.grows.watcher_of_known known found
      have away : some s ∉ b.targets := fun collecting =>
        unknown (sound.targets (first.stack collecting between))
      rcases apart with same | same
      · rw [Known, same] at known
        exact absurd known unknown
      · rw [second.kept between away, first.fresh unknown between, properties, properties, same]
    · exact second.fresh known found

end Enlists

/-- An entry is added for a subscriber that is no watcher, or collects. -/
theorem enlists_register {w : World} (d : DepId) (origin : some s ∈ w.targets ∨ w.Known s)
    (other : ∀ x, w.watcher? s = some x → some s ∈ w.targets) : Enlists w (w.register d s) where
  moves := .single (.register d origin)
  stack collecting _ := collecting
  kept {t x d'} found away := by
    have apart : s ≠ t := by
      rintro rfl
      exact away (other x found)
    rw [entries_register]
    split
    · simp [apart]
    · rfl
  fresh unknown found := absurd (known_of_watcher found) unknown

theorem enlists_depend (w : World) (d : DepId) : Enlists w (w.depend d) := by
  unfold depend
  split
  · rename_i s collecting
    have target : some s ∈ w.targets := List.mem_of_head? (Option.join_eq_some_iff.mp collecting)
    exact enlists_register d (.inl target) fun _ _ => target
  · exact .refl w

theorem enlists_read (w : World) (o : ObjectId) (key : String) : Enlists w (w.read o key).1 := by
  unfold read
  split
  · exact enlists_depend w _
  · exact .refl w

theorem enlists_setText (w : World) (n : NodeId) (content : String) :
    Enlists w (w.setText n content) :=
  .of_same (moves_setText w n content) (subscribers_setText w n content)
    (entries_of_deps (deps_setText w n content))
    (by rw [targets_of_custody (custody_setText w n content)]; exact fun _ => id)

/-- A new watcher collects during its first read. -/
theorem enlists_watch {w : World} (sound : w.Sound) (root : ObjectId) (key : String)
    (reaction : Reaction) : Enlists w (w.watch root key reaction).1 where
  moves := .single (.watch w root key reaction)
  stack collecting _ :=
    targets_of_custody (custody_watch w root key reaction) ▸ collecting
  kept {s x d} found away := by
    have known := known_of_watcher found
    have old : (⟨w.subscribers.size⟩ : SubscriberId) ≠ s := by
      rintro rfl
      exact Nat.lt_irrefl _ known
    cases tracked : (w.properties root).dep? key with
    | none => rw [watch_of_plain reaction tracked]; rfl
    | some d' =>
      rw [watch_of_dep reaction tracked, entries_register]
      split
      · rw [List.count_append, List.count_singleton, beq_false_of_ne old]
        rfl
      · rfl
  fresh {s x d} unknown found := by
    obtain ⟨rfl, same⟩ := added_of_push (subscribers_watch w root key reaction) unknown found
    obtain rfl : w.newWatcher root key reaction = x := Option.some.inj same
    have absent : (w.entries d).count ⟨w.subscribers.size⟩ = 0 :=
      List.count_eq_zero_of_not_mem fun listed => unknown (sound.entries listed)
    rw [properties, objects_watch]
    change _ = if (w.properties root).dep? key = some d then 1 else 0
    cases tracked : (w.properties root).dep? key with
    | none =>
      rw [watch_of_plain reaction tracked]
      exact absent
    | some d' =>
      have inside : d'.index < w.deps.size := by
        obtain ⟨slot, found, listed⟩ := tracked_iff.mpr tracked
        exact sound.dep found listed
      rw [watch_of_dep reaction tracked, entries_register]
      by_cases here : d' = d
      · subst here
        rw [if_pos ⟨rfl, inside⟩, if_pos rfl, List.count_append, List.count_singleton_self]
        exact congrArg (· + 1) absent
      · rw [if_neg fun same => here same.1, if_neg fun same => here (Option.some.inj same)]
        exact absent

section Binding

variable {data : ObjectId}

/-- Binding changes no object, so that new watchers keep their entries in what they watch. -/
private theorem enlists_binding (data : ObjectId) (n : NodeId) :
    BindingKeeps data n fun a _ b => a.Sound → Enlists a b ∧ b.objects = a.objects where
  nil w _ := ⟨.refl w, rfl⟩
  append first second sound := by
    obtain ⟨here, same⟩ := first sound
    obtain ⟨later, same'⟩ := second (here.moves.sound sound)
    exact ⟨here.trans sound later (.inr same'), same'.trans same⟩
  read w key _ := ⟨enlists_read w data key, objects_read w data key⟩
  setText w content _ := ⟨enlists_setText w n content, objects_setText w n content⟩
  setControlValue w value _ :=
    ⟨.of_same (moves_setControlValue w n value) rfl (fun _ => rfl) (fun _ => id), rfl⟩
  writeBack w key _ :=
    ⟨.of_same (moves_listen w n (.writeBack data key)) rfl (fun _ => rfl) (fun _ => id), rfl⟩
  watch w key reaction _ sound :=
    ⟨enlists_watch sound data key reaction, objects_watch w data key reaction⟩

theorem enlists_bind {w w' : World} (sound : w.Sound)
    (bound : w.bind data root = some (w', watchers)) : Enlists w w' :=
  (BindingKeeps.bind (enlists_binding data) bound sound).1

end Binding

section Mounting

private theorem enlists_build (w : World) (json : Json) : Enlists w (w.build json).1 := by
  have moves := moves_build w json
  obtain ⟨objects, built⟩ := build_eq w json
  rw [built] at moves ⊢
  exact .of_same moves rfl (fun _ => rfl) fun _ => id

theorem enlists_observe (w : World) (v : Value) : Enlists w (w.observe v) :=
  .of_same (moves_observe w v) (subscribers_observeAll w [v]) (entries_observe w v)
    (by rw [targets_of_custody (custody_observe w v)]; exact fun _ => id)

private theorem enlists_dataObject (w : World) (v : Value) : Enlists w (w.dataObject v).1 := by
  have moves := moves_dataObject w v
  obtain ⟨objects, planted⟩ := dataObject_eq w v
  rw [planted] at moves ⊢
  exact .of_same moves rfl (fun _ => rfl) fun _ => id

/-- The host takes hold of things or gives them up. -/
private theorem enlists_custody (w : World) (handles : List SubscriberId)
    (binders : Arena (Option Binder)) (bundles : Arena (Option (List SubscriberId)))
    (viewModels : Arena (Option ViewModel)) :
    Enlists w { w with
      handles := handles, binders := binders, bundles := bundles, viewModels := viewModels } :=
  .of_same (.single (.custody w _ _ _ _)) rfl (fun _ => rfl) (fun _ => id)

/-- A mount tracks its data before it makes the watchers of its bindings. -/
theorem enlists_mount {w w' : World} (sound : w.Sound)
    (mounted : w.mount element value = some (w', vm)) : Enlists w w' := by
  obtain ⟨bound, watchers, ran, rfl, -⟩ := mount_eq_some mounted
  have data := enlists_dataObject w value
  have sound' := data.moves.sound sound
  have observed := enlists_observe (w.dataObject value).1 (.object (w.dataObject value).2)
  have binds := enlists_bind (observed.moves.sound sound') ran
  have inner := observed.trans sound' binds (.inl (subscribers_observeAll _ _))
  have whole := data.trans sound inner (.inl (by cases value <;> rfl))
  exact whole.trans sound (enlists_custody bound _ _ _ _) (.inr rfl)

end Mounting

/-- A request that runs no callback makes entries for new watchers only. -/
theorem enlists_perform {w w' : World} (sound : w.Sound)
    (done : w.perform a = some (w', reply)) : Enlists w w' := by
  -- Most requests concern neither subscribers nor lists.
  have of_same : w'.subscribers = w.subscribers → (∀ d, w'.entries d = w.entries d) →
      Enlists w w' := fun subscribers entries =>
    .of_same (moves_perform done) subscribers entries fun _ collecting =>
      (targets_perform done).subset collecting
  cases a with
  | read o key => cases done; exact enlists_read w o key
  | depend d => cases done; exact enlists_depend w d
  | observe v => cases done; exact enlists_observe w v
  | build json => cases done; exact enlists_build w json
  | setText n content => cases done; exact enlists_setText w n content
  | newDep => cases done; exact of_same rfl (entries_newDep w)
  | bind b root =>
    rcases perform_bind_cases done with rfl | ⟨binder, bound, watchers, -, ran, rfl⟩
    · exact .refl w'
    · exact (enlists_bind sound ran).trans sound (enlists_custody bound _ _ _ _) (.inr rfl)
  | detach b =>
    rcases perform_detach_cases done with rfl | ⟨binder, -, rfl⟩ <;>
      exact of_same rfl fun _ => rfl
  | mount element value =>
    obtain ⟨vm, ran⟩ := perform_mount_eq_some done
    exact enlists_mount sound ran
  | mountOptions options document =>
    rcases perform_mountOptions_cases done with ⟨rfl, -⟩ | ⟨vm, mounted⟩
    · exact .refl w'
    · obtain ⟨element, ran⟩ := mountOptions_eq_some mounted
      have built := enlists_build w options.data
      obtain ⟨objects, same⟩ := build_eq w options.data
      exact built.trans sound (enlists_mount (built.moves.sound sound) ran) (.inl (by rw [same]))
  | newObject | leave | release | newText | newElement | appendChild | setAttribute
  | setControlValue | newBinder | releaseBinder | releaseBundle | releaseViewModel =>
    cases done
    exact of_same rfl fun _ => rfl

end World
end DataBinding
