import DataBinding.Proofs.Moves

/-! A world grows while nobody is told of a change: tracked properties and subscribers
stay as they are, entries are only added, and a new watcher of a tracked property starts
out with the property's value and an entry in its list. -/
namespace DataBinding.World

theorem known_iff {w : World} : w.Known s ↔ ∃ x, w.subscriber? s = some x := by
  constructor
  · intro known
    exact ⟨_, Array.getElem?_eq_getElem known⟩
  · rintro ⟨x, found⟩
    exact Arena.lt_size_of_get? found

theorem known_of_watcher {w : World} (found : w.watcher? s = some x) : w.Known s := by
  obtain ⟨y, present, -⟩ := Option.bind_eq_some_iff.mp found
  exact known_iff.mpr ⟨y, present⟩

theorem subscriber_of_watcher {w : World} (found : w.watcher? s = some x) :
    w.subscriber? s = some (.watcher x) := by
  obtain ⟨y, present, same⟩ := Option.bind_eq_some_iff.mp found
  cases y with
  | host c => cases same
  | watcher y => rw [present, Option.some.inj same]

/-- The later world has all that the earlier one had. -/
structure Grows (w w' : World) : Prop where
  tracked : w.slot? o key = some slot → slot.dep = some d → w'.slot? o key = some slot
  deps : w.deps.size ≤ w'.deps.size
  entries : ∀ d, w.entries d <+: w'.entries d
  subscriber : w.subscriber? s = some x → w'.subscriber? s = some x
  /-- A new watcher remembers what it watches and is listed there. -/
  fresh : ¬w.Known s → w'.watcher? s = some x → w.slot? x.root x.key = some slot →
    slot.dep = some d → d.index < w.deps.size → x.cached = slot.value ∧ s ∈ w'.entries d

namespace Grows

theorem watcher {w w' : World} (grows : Grows w w') (found : w.watcher? s = some x) :
    w'.watcher? s = some x := by
  obtain ⟨y, present, same⟩ := Option.bind_eq_some_iff.mp found
  exact Option.bind_eq_some_iff.mpr ⟨y, grows.subscriber present, same⟩

/-- A watcher that was there already is the same as before. -/
theorem watcher_of_known {w w' : World} (grows : Grows w w') (known : w.Known s)
    (found : w'.watcher? s = some x) : w.watcher? s = some x := by
  obtain ⟨y, present⟩ := known_iff.mp known
  rwa [watcher?, grows.subscriber present, ← present] at found

/-- Where no subscriber is added, nothing has to be said of new watchers. -/
private theorem of_subscribers {w w' : World} (same : w'.subscribers = w.subscribers)
    (tracked : ∀ {o key slot d}, w.slot? o key = some slot → slot.dep = some d →
      w'.slot? o key = some slot)
    (deps : w.deps.size ≤ w'.deps.size) (entries : ∀ d, w.entries d <+: w'.entries d) :
    Grows w w' where
  tracked := tracked
  deps := deps
  entries := entries
  subscriber found := by simpa only [subscriber?, same] using found
  fresh unknown found := by
    have known := known_of_watcher found
    rw [Known, same] at known
    exact absurd known unknown

/-- Only pages, the stack of collecting subscribers or what the host holds have changed. -/
theorem of_same {w w' : World} (objects : w'.objects = w.objects) (deps : w'.deps = w.deps)
    (subscribers : w'.subscribers = w.subscribers) : Grows w w' :=
  of_subscribers subscribers
    (fun found _ => by simpa only [slot?, properties, objects] using found)
    (Nat.le_of_eq (by rw [deps])) (fun d => by
      have lists : w'.entries d = w.entries d := by simp only [World.entries, deps]
      exact lists ▸ List.prefix_refl _)

theorem refl (w : World) : Grows w w := of_same rfl rfl rfl

theorem trans {a b c : World} (first : Grows a b) (second : Grows b c) : Grows a c where
  tracked found dep := second.tracked (first.tracked found dep) dep
  deps := Nat.le_trans first.deps second.deps
  entries d := (first.entries d).trans (second.entries d)
  subscriber found := second.subscriber (first.subscriber found)
  fresh {s x slot d} unknown found present dep exists_ := by
    by_cases known : b.Known s
    · -- The watcher was added on the way to `b` and has been left alone since.
      obtain ⟨y, before⟩ := known_iff.mp known
      have after := second.subscriber before
      have same : b.watcher? s = some x := by
        simpa only [watcher?, before, after] using found
      obtain ⟨remembers, listed⟩ := first.fresh unknown same present dep exists_
      exact ⟨remembers, (second.entries d).subset listed⟩
    · exact second.fresh known found (first.tracked present dep) dep
        (Nat.lt_of_lt_of_le exists_ first.deps)

end Grows

/-- An entry is added to one list. -/
theorem entries_register (w : World) (d d' : DepId) (s : SubscriberId) :
    (w.register d s).entries d' =
      if d = d' ∧ d.index < w.deps.size then w.entries d' ++ [s] else w.entries d' := by
  simp only [entries, register, Arena.get?_modify]
  by_cases same : d = d'
  · subst same
    cases listed : w.deps.get? d.index with
    | none =>
      have outside : ¬d.index < w.deps.size := by
        simpa [Arena.get?, Arena.size] using listed
      simp [outside]
    | some list =>
      have inside : d.index < w.deps.size := Arena.lt_size_of_get? listed
      simp [inside]
  · have apart : d.index ≠ d'.index := fun eq => same (by cases d; cases d'; simp_all)
    simp [same, apart]

/-- The watcher that `watch` adds. -/
def newWatcher (w : World) (root : ObjectId) (key : String) (reaction : Reaction) : Watcher :=
  ⟨root, key, w.peek root key, reaction⟩

/-- A watcher of a tracked property is added and listed there. -/
theorem watch_of_dep {w : World} (reaction : Reaction)
    (tracked : (w.properties root).dep? key = some d) :
    w.watch root key reaction =
      ((w.newSubscriber (.watcher (w.newWatcher root key reaction))).1.register d
        ⟨w.subscribers.size⟩, ⟨w.subscribers.size⟩) := by
  have same : ({ w with
      subscribers := w.subscribers.push (.watcher ⟨root, key, .undefined, reaction⟩)
      targets := some ⟨w.subscribers.size⟩ :: w.targets } : World).properties root =
        w.properties root := rfl
  simp [watch, newSubscriber, newWatcher, read, enter, same, tracked, leave, remember,
    Arena.modify_push_size, Subscriber.remember, depend, target?, register, peek]

/-- A watcher of any other property is added and listed nowhere. -/
theorem watch_of_plain {w : World} (reaction : Reaction)
    (plain : (w.properties root).dep? key = none) :
    w.watch root key reaction =
      w.newSubscriber (.watcher (w.newWatcher root key reaction)) := by
  have same : ({ w with
      subscribers := w.subscribers.push (.watcher ⟨root, key, .undefined, reaction⟩)
      targets := some ⟨w.subscribers.size⟩ :: w.targets } : World).properties root =
        w.properties root := rfl
  simp [watch, newSubscriber, newWatcher, read, enter, same, plain, leave, remember,
    Arena.modify_push_size, Subscriber.remember, peek]

theorem subscribers_watch (w : World) (root : ObjectId) (key : String) (reaction : Reaction) :
    (w.watch root key reaction).1.subscribers =
      w.subscribers.push (.watcher (w.newWatcher root key reaction)) := by
  cases tracked : (w.properties root).dep? key with
  | none => rw [watch_of_plain reaction tracked]; rfl
  | some d => rw [watch_of_dep reaction tracked]; rfl

theorem objects_watch (w : World) (root : ObjectId) (key : String) (reaction : Reaction) :
    (w.watch root key reaction).1.objects = w.objects := by
  cases tracked : (w.properties root).dep? key with
  | none => rw [watch_of_plain reaction tracked]; rfl
  | some d => rw [watch_of_dep reaction tracked]; rfl

theorem subscriber?_push {w w' : World} (pushed : w'.subscribers = w.subscribers.push x) :
    w'.subscriber? s = if s.index = w.subscribers.size then some x else w.subscriber? s := by
  simp only [subscriber?, pushed, Arena.get?_push]

/-- A subscriber that is added leaves the others as they are. -/
theorem subscriber?_of_push {w w' : World} (pushed : w'.subscribers = w.subscribers.push x)
    (found : w.subscriber? s = some y) : w'.subscriber? s = some y := by
  have known : s.index < w.subscribers.size := known_iff.mpr ⟨y, found⟩
  rw [subscriber?_push pushed, if_neg (Nat.ne_of_lt known)]
  exact found

/-- A watcher that was not there is the subscriber that was added. -/
theorem added_of_push {w w' : World} (pushed : w'.subscribers = w.subscribers.push x)
    (unknown : ¬w.Known s) (found : w'.watcher? s = some y) :
    s = ⟨w.subscribers.size⟩ ∧ x.watcher? = some y := by
  have known := known_of_watcher found
  have last : s.index = w.subscribers.size := by
    simp only [Known, pushed, Arena.size_push] at known unknown
    omega
  rw [watcher?, subscriber?_push pushed, if_pos last] at found
  exact ⟨by rw [← last], found⟩

/-- A watcher was there, or it is the subscriber that was added. -/
theorem watcher?_of_push {w w' : World} (pushed : w'.subscribers = w.subscribers.push x)
    (found : w'.watcher? s = some y) : w.watcher? s = some y ∨ x.watcher? = some y := by
  rw [watcher?, subscriber?_push pushed] at found
  split at found
  · exact .inr found
  · exact .inl found

private theorem get?_push_nil (lists : Arena (List SubscriberId)) (i : Nat) :
    ((lists.push []).get? i).getD [] = (lists.get? i).getD [] := by
  rw [Arena.get?_push]
  split
  · rename_i last
    have outside : lists.get? i = none := by simp [Arena.get?, last, Arena.size]
    simp [outside]
  · rfl

/-- New lists are empty. -/
private theorem get?_foldl_push (fresh : List Value) (lists : Arena (List SubscriberId)) :
    (∀ i, ((fresh.foldl (fun deps _ => deps.push []) lists).get? i).getD [] =
      (lists.get? i).getD []) ∧
    (fresh.foldl (fun deps _ => deps.push []) lists).size = lists.size + fresh.length := by
  induction fresh generalizing lists with
  | nil => exact ⟨fun _ => rfl, rfl⟩
  | cons v rest ih =>
    obtain ⟨same, size⟩ := ih (lists.push [])
    refine ⟨fun i => (same i).trans (get?_push_nil lists i), ?_⟩
    rw [List.foldl_cons, size, Arena.size_push, List.length_cons]
    omega

/-- A new list is empty, as is one that does not exist. -/
@[simp] theorem entries_newDep (w : World) (d : DepId) : w.newDep.1.entries d = w.entries d :=
  get?_push_nil w.deps d.index

@[simp] theorem entries_trackObject (w : World) (o : ObjectId) (d : DepId) :
    (w.trackObject o).1.entries d = w.entries d :=
  (get?_foldl_push _ _).1 d.index

theorem size_deps_trackObject (w : World) (o : ObjectId) :
    (w.trackObject o).1.deps.size = w.deps.size + (w.trackObject o).2.length :=
  (get?_foldl_push _ _).2

private theorem grows_watch (w : World) (root : ObjectId) (key : String) (reaction : Reaction) :
    Grows w (w.watch root key reaction).1 := by
  have pushed := subscribers_watch w root key reaction
  cases tracked : (w.properties root).dep? key with
  | none =>
    refine ⟨?_, ?_, ?_, fun found => subscriber?_of_push pushed found, ?_⟩
    · exact fun found _ => by rw [watch_of_plain reaction tracked]; exact found
    · rw [watch_of_plain reaction tracked]
      exact Nat.le_refl _
    · intro d
      rw [watch_of_plain reaction tracked]
      exact List.prefix_refl _
    · intro s x slot d unknown found present dep
      obtain ⟨-, same⟩ := added_of_push pushed unknown found
      obtain rfl : w.newWatcher root key reaction = x := Option.some.inj same
      have plain : (w.slot? root key).bind (·.dep) = none := tracked
      have listed : (w.slot? root key).bind (·.dep) = some d :=
        Option.bind_eq_some_iff.mpr ⟨slot, present, dep⟩
      rw [plain] at listed
      cases listed
  | some d =>
    refine ⟨?_, ?_, ?_, fun found => subscriber?_of_push pushed found, ?_⟩
    · exact fun found _ => by rw [watch_of_dep reaction tracked]; exact found
    · rw [watch_of_dep reaction tracked]
      simp [register, newSubscriber]
    · intro d'
      rw [watch_of_dep reaction tracked, entries_register]
      split
      · exact List.prefix_append _ _
      · exact List.prefix_refl _
    · intro s x slot d' unknown found present dep inside
      obtain ⟨rfl, same⟩ := added_of_push pushed unknown found
      obtain rfl : w.newWatcher root key reaction = x := Option.some.inj same
      have listed : (w.slot? root key).bind (·.dep) = some d' :=
        Option.bind_eq_some_iff.mpr ⟨slot, present, dep⟩
      have here : (w.slot? root key).bind (·.dep) = some d := tracked
      obtain rfl : d' = d := Option.some.inj (listed.symm.trans here)
      refine ⟨peek_of_slot present, ?_⟩
      rw [watch_of_dep reaction tracked, entries_register, if_pos ⟨rfl, inside⟩]
      simp

theorem Move.grows (move : Move w w') : Grows w w' := by
  cases move with
  | object _ entries =>
    exact .of_subscribers rfl (fun found _ => slot?_newObject _ found) (Nat.le_refl _)
      fun _ => List.prefix_refl _
  | add value absent =>
    exact .of_subscribers rfl (fun found _ => slot?_addProperty value absent found) (Nat.le_refl _)
      fun _ => List.prefix_refl _
  | @put o key slot _ value found plain =>
    refine .of_subscribers rfl (fun {o' key' slot' d} present dep => ?_) (Nat.le_refl _)
      fun _ => List.prefix_refl _
    refine slot?_replace_other value present ?_
    rintro ⟨rfl, rfl⟩
    obtain rfl : slot' = slot := Option.some.inj (present.symm.trans found)
    rw [plain] at dep
    cases dep
  | track _ o =>
    refine .of_subscribers rfl slot?_trackObject ?_ ?_
    · rw [size_deps_trackObject]
      exact Nat.le_add_right _ _
    · exact fun d => entries_trackObject w o d ▸ List.prefix_refl _
  | dep =>
    refine .of_subscribers rfl (fun found _ => found) (by simp [newDep]) ?_
    exact fun d => entries_newDep w d ▸ List.prefix_refl _
  | register d origin =>
    refine .of_subscribers rfl (fun found _ => found) (by simp [World.register]) fun d' => ?_
    rw [entries_register]
    split
    · exact List.prefix_append _ _
    · exact List.prefix_refl _
  | subscribe _ c =>
    refine ⟨fun found _ => found, Nat.le_refl _, fun _ => List.prefix_refl _,
      fun found => subscriber?_of_push rfl found, ?_⟩
    intro s x _ d unknown found
    obtain ⟨-, host⟩ := added_of_push rfl unknown found
    cases host
  | watch _ root key reaction => exact grows_watch w root key reaction
  | stack | node | edit | custody => exact .of_same rfl rfl rfl

theorem Moves.grows (moves : Moves w w') : Grows w w' := by
  induction moves with
  | refl => exact .refl w
  | tail _ move ih => exact ih.trans move.grows

/-- Once an object is observed, its properties are tracked and keep their values. -/
theorem slot?_observe_object {w : World} (found : w.slot? o key = some slot) :
    ∃ d, (w.observe (.object o)).slot? o key = some { slot with dep := some d } := by
  have tracked : ∃ d, (w.trackObject o).1.slot? o key = some { slot with dep := some d } := by
    have held := properties_modifyObject_self w (·.track w.deps.size) (object_of_slot found)
    cases plain : slot.dep with
    | none =>
      obtain ⟨d, after, -⟩ := Properties.find?_track_of_plain w.deps.size found plain
      exact ⟨d, (congrArg (·.find? key) held).trans after⟩
    | some d =>
      have after := Properties.find?_track_of_dep w.deps.size found plain
      have same : { slot with dep := some d } = slot := by rw [← plain]
      exact ⟨d, (congrArg (·.find? key) held).trans (same ▸ after)⟩
  obtain ⟨d, now⟩ := tracked
  refine ⟨d, ?_⟩
  rw [observe, observeAll]
  exact (moves_observeAll _ _).grows.tracked now rfl

private theorem value_trackObject (w : World) (observed o : ObjectId) (key : String) :
    ((w.trackObject observed).1.slot? o key).map (·.value) = (w.slot? o key).map (·.value) := by
  rw [slot?, slot?, properties_trackObject]
  split
  · cases found : (w.properties o).find? key with
    | none => rw [Properties.find?_track_of_none _ found]
    | some slot =>
      cases plain : slot.dep with
      | none =>
        obtain ⟨d, after, -⟩ := Properties.find?_track_of_plain w.deps.size found plain
        rw [after]
        rfl
      | some d => rw [Properties.find?_track_of_dep _ found plain]
  · rfl

/-- Observing changes no value and adds no property. -/
theorem value_observeAll (w : World) (pending : List Value) (o : ObjectId) (key : String) :
    ((w.observeAll pending).slot? o key).map (·.value) = (w.slot? o key).map (·.value) := by
  induction w, pending using observeAll.induct with
  | case1 w => rw [observeAll]
  | case2 w observed rest ih => rw [observeAll, ih, value_trackObject]
  | case3 w v rest plain ih =>
    rw [observeAll]
    · exact ih
    · exact plain

theorem entries_observe (w : World) (v : Value) (d : DepId) :
    (w.observe v).entries d = w.entries d := by
  have all : ∀ pending (w : World), (w.observeAll pending).entries d = w.entries d := by
    intro pending w
    induction w, pending using observeAll.induct with
    | case1 w => rw [observeAll]
    | case2 w observed rest ih => rw [observeAll, ih, entries_trackObject]
    | case3 w v rest plain ih =>
      rw [observeAll]
      · exact ih
      · exact plain
  exact all [v] w

end DataBinding.World
