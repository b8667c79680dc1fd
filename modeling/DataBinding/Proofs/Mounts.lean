import DataBinding.Proofs.Binding
import DataBinding.Proofs.Synced
import DataBinding.Proofs.Trees

/-! Mounting a page whose nodes stand in one place each and have no bindings yet. The mount
comes to its end, the bindings of the page are added to those that there were, and every
binding is in order. -/
namespace DataBinding.World

variable {w : World}

/-- The world in which a mount binds the page: the data is an object, and it is observed. -/
def prepared (w : World) (v : Value) : World :=
  (w.dataObject v).1.observe (.object (w.dataObject v).2)

theorem moves_prepared (w : World) (v : Value) : Moves w (w.prepared v) :=
  (moves_dataObject w v).trans (moves_observe _ _)

theorem custody_prepared (w : World) (v : Value) : (w.prepared v).custody = w.custody := by
  simp [prepared]

private theorem dataObject_same (w : World) (v : Value) :
    (w.dataObject v).1.nodes = w.nodes ∧ (w.dataObject v).1.subscribers = w.subscribers ∧
      (w.dataObject v).1.deps = w.deps := by
  cases v <;> exact ⟨rfl, rfl, rfl⟩

theorem nodes_prepared (w : World) (v : Value) : (w.prepared v).nodes = w.nodes :=
  (nodes_observeAll _ _).trans (dataObject_same w v).1

private theorem subscribers_prepared (w : World) (v : Value) :
    (w.prepared v).subscribers = w.subscribers :=
  (subscribers_observeAll _ _).trans (dataObject_same w v).2.1

private theorem entries_prepared (w : World) (v : Value) (d : DepId) :
    (w.prepared v).entries d = w.entries d :=
  (entries_observe _ _ d).trans (entries_of_deps (dataObject_same w v).2.2 d)

/-- A new object without properties is like one that does not exist. -/
private theorem slot?_dataObject (w : World) (v : Value) (o : ObjectId) (key : String) :
    (w.dataObject v).1.slot? o key = w.slot? o key := by
  have added : (w.newObject {}).1.slot? o key = w.slot? o key := by
    by_cases new : o.index = w.objects.size
    · have absent : w.objects.get? w.objects.size = none := Array.getElem?_eq_none (Nat.le_refl _)
      simp [slot?, properties, newObject, Arena.get?_push, new, absent]
    · simp [slot?, properties, newObject, Arena.get?_push, new]
  cases v with
  | object o' => rfl
  | _ => exact added

theorem value_prepared (w : World) (v : Value) (o : ObjectId) (key : String) :
    ((w.prepared v).slot? o key).map (·.value) = (w.slot? o key).map (·.value) := by
  rw [prepared, observe, value_observeAll, slot?_dataObject]

theorem peek_prepared (w : World) (v : Value) (o : ObjectId) (key : String) :
    (w.prepared v).peek o key = w.peek o key := by
  rw [peek_eq, peek_eq, value_prepared]

theorem isSome_prepared (w : World) (v : Value) (o : ObjectId) (key : String) :
    ((w.prepared v).slot? o key).isSome = (w.slot? o key).isSome := by
  have same := congrArg Option.isSome (value_prepared w v o key)
  simpa using same

private theorem tracked_prepared (found : (w.prepared v).slot? (w.dataObject v).2 key = some slot) :
    ∃ d, slot.dep = some d := by
  have present := isSome_prepared w v (w.dataObject v).2 key
  rw [found, ← slot?_dataObject w v] at present
  obtain ⟨before, was⟩ := Option.isSome_iff_exists.mp present.symm
  obtain ⟨d, after⟩ := slot?_observe_object was
  obtain rfl := Option.some.inj (after.symm.trans found)
  exact ⟨d, rfl⟩

/-- The tree below a node depends on the nodes alone, and so does what a walk reaches. -/
theorem Spans.of_nodes {a : World} (same : a.nodes = w.nodes) (spans : w.Spans roots ns) :
    a.Spans roots ns := by
  induction spans with
  | nil => exact .nil
  | cons _ _ ihBelow ihRest =>
    refine .cons ?_ ihRest
    rw [children_of_nodes same]
    exact ihBelow

theorem Reaches.of_nodes {a : World} (same : a.nodes = w.nodes) (reaches : w.Reaches roots n) :
    a.Reaches roots n := by
  induction reaches with
  | root member => exact .root member
  | deeper member plain _ ih =>
    refine .deeper member ?_ ?_
    · intro e found
      rw [node?, same] at found
      exact plain e found
    · rw [children_of_nodes same]
      exact ih

theorem bound_prepared (w w' : World) (v : Value) (data : ObjectId) (roots : List NodeId) (n : NodeId)
    (role : Role) (key : String) :
    (w.prepared v).Bound w' data roots n role key ↔ w.Bound w' data roots n role key := by
  have nodes := nodes_prepared w v
  have page : ∀ m, (w.prepared v).node? m = w.node? m := fun m => by rw [node?, node?, nodes]
  have values := peek_prepared w v data
  have reaches : ∀ m, (w.prepared v).Reaches roots m ↔ w.Reaches roots m := fun m =>
    ⟨.of_nodes nodes.symm, .of_nodes nodes⟩
  simp only [bound_iff, Generates, reaches, template_congr (page _) values, values]

/-- What a mount has bound, and where. -/
structure Brings (data : ObjectId) (element : NodeId) (ns : List NodeId) (w w' : World)
    (new : List Mark) : Prop where
  places : k ∈ new → k.node ∈ ns ∨ w.node? k.node = none
  fresh : k ∈ new → k.data = data ∧ k.changed = false ∧ k.present = (w.slot? data k.key).isSome
  bound : (∃ k ∈ new, k.node = n ∧ k.role = role ∧ k.key = key) ↔
    w.Bound w' data (w.children element) n role key

variable {base first : Nat} {marks : List Mark} {ns : List NodeId}

private theorem covers_bind (begun : Open base first data w w marks ns)
    (spans : w.Spans (w.children element) ns) (nodup : ns.Nodup) : ∃ own w' new,
      w.bind data element = some (w', own) ∧
        Covers base first data w marks ns own w' new (w.Bound w' data (w.children element)) := by
  have page : ∀ n ∈ ns, ∃ x, w.node? n = some x := fun n member => by
    obtain ⟨x, found, -⟩ := begun.page member
    exact ⟨x, found⟩
  have fewer := length_le_size nodup page
  obtain ⟨own, w', new, walked, covers⟩ :=
    covers_forest spans nodup begun (2 * w.nodes.size + 1) (by omega) []
  refine ⟨own, w', new, ?_, covers⟩
  rw [bind, walkBound, bindWithin_succ, walked, List.nil_append]

/-- The view model takes over the new watchers and nothing else. -/
private theorem synced_viewModel {b : World} (synced : Synced base first w marks)
    (ready : Ready base first data b (marks ++ new)) (custody : b.custody = w.custody)
    (watchers : new.map (·.watcher) = own) (element : NodeId) :
    Synced base first { b with viewModels := b.viewModels.push (some ⟨element, data, own⟩) }
      (marks ++ new) := by
  have owned := owners_mounted b ⟨element, data, own⟩
  have before := fun s => owners_of_custody (s := s) custody
  simp only [before] at owned
  have targets : b.targets = [] := (targets_of_custody custody).trans synced.targets
  refine ⟨?_, ready.listening, targets, fun {k} member => ?_, fun {s} early => ?_⟩
  · exact ready.ordered.of_grows (.of_same rfl rfl rfl) rfl rfl fun _ => rfl
  · refine holds_iff.mpr (.inl ?_)
    rw [owned]
    rcases List.mem_append.mp member with old | late
    · rcases holds_iff.mp (synced.held old) with positive | collecting
      · exact Nat.add_pos_left positive _
      · rw [synced.targets] at collecting
        cases collecting
    · have listed : k.watcher ∈ own := watchers ▸ List.mem_map_of_mem late
      exact Nat.add_pos_right _ (List.count_pos_iff.mpr listed)
  · apply Bool.eq_false_iff.mpr
    intro held
    rcases holds_iff.mp held with positive | collecting
    · rw [owned] at positive
      rcases Nat.eq_zero_or_pos (own.count s) with none | some
      · rw [none, Nat.add_zero] at positive
        have still := holds_iff.mpr (.inl positive)
        rw [synced.gone early] at still
        cases still
      · have listed : s ∈ new.map (·.watcher) := watchers ▸ List.count_pos_iff.mp some
        obtain ⟨k, late, rfl⟩ := List.mem_map.mp listed
        obtain ⟨above, -⟩ := ready.ordered.linked.watcher (List.mem_append_right marks late)
        omega
    · have collecting : Option.some s ∈ b.targets := collecting
      rw [targets] at collecting
      cases collecting

/-- A mount comes to its end, with all bindings in order. -/
theorem Synced.mounts (synced : Synced base first w marks) (sound : w.Sound) (v : Value)
    (spans : w.Spans (w.children element) ns) (nodup : ns.Nodup)
    (page : ∀ n ∈ ns, ∃ x, w.node? n = some x) (unshown : ∀ n ∈ ns, Unshown w marks n)
    (unmarked : ∀ n ∈ ns, ∀ k ∈ marks, k.node ≠ n) :
    ∃ w' vm new, w.mount element v = some (w', vm) ∧ Synced base first w' (marks ++ new) ∧
      Brings (w.dataObject v).2 element ns w w' new := by
  let data := (w.dataObject v).2
  let a := w.prepared v
  have moves : Moves w a := moves_prepared w v
  have nodes : a.nodes = w.nodes := nodes_prepared w v
  have custody : a.custody = w.custody := custody_prepared w v
  have same : ∀ n, a.node? n = w.node? n := fun n => by rw [node?, node?, nodes]
  have ordered : Ordered base first a marks := synced.ordered.of_grows moves.grows nodes
    (subscribers_prepared w v) (entries_prepared w v)
  have begun : Open base first data a a marks ns := by
    refine ⟨⟨ordered, ?_, ?_, moves.sound sound, tracked_prepared⟩, rfl, ?_, ?_, ?_⟩
    · intro n
      rw [listeners, same]
      exact synced.listening n
    · exact (targets_of_custody custody).trans synced.targets
    · intro n member
      obtain ⟨x, found⟩ := page n member
      exact ⟨x, (same n).trans found, (same n).trans found⟩
    · intro n member k among role changed
      rw [children_of_nodes nodes]
      exact unshown n member k among role changed
    · exact fun member among => unmarked _ member _ among
  have spans' : a.Spans (a.children element) ns := by
    rw [children_of_nodes nodes]
    exact spans.of_nodes nodes
  obtain ⟨own, b, new, bound, covers⟩ := covers_bind begun spans' nodup
  have mounts : w.mount element v = some
      ({ b with viewModels := b.viewModels.push (some ⟨element, data, own⟩) },
        ⟨b.viewModels.size⟩) := by
    have bound : ((w.dataObject v).1.observe (.object (w.dataObject v).2)).bind
        (w.dataObject v).2 element = some (b, own) := bound
    simp only [mount, bound]
    rfl
  refine ⟨_, _, new, mounts, ?_, ?_, ?_, ?_⟩
  · exact synced_viewModel synced covers.adds.ready ((issues_bind bound).custody.trans custody)
      covers.adds.watchers element
  · exact fun late => (covers.places late).imp_right (same _).symm.trans
  · intro k late
    obtain ⟨owner, unchanged, present⟩ := covers.adds.fresh late
    exact ⟨owner, unchanged, present.trans (isSome_prepared w v data k.key)⟩
  · intro n role key
    rw [covers.adds.bound, children_of_nodes nodes, bound_prepared]
    exact bound_congr spans fun _ _ => rfl

end DataBinding.World
