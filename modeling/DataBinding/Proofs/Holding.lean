import Mathlib.Data.List.Nodup
import DataBinding.Proofs.Growth

/-! Who holds a subscriber. Owners are counted, so that handing watchers on leaves a sum
as it is. No request gives an owner to a subscriber that was there before: the only new
owners are those of new subscribers. -/
namespace DataBinding

/-- A sum over things is positive if one of them counts. -/
theorem Arena.total_pos_iff (count : α → Nat) (a : Arena α) :
    0 < a.total count ↔ ∃ x ∈ a.cells.toList, 0 < count x := by
  change 0 < (a.cells.toList.map count).sum ↔ _
  simp only [List.sum_pos_iff_exists_pos_nat, List.mem_map, exists_exists_and_eq_and]

namespace World

/-- What the host program and the stack of collecting subscribers hold. -/
def custody (w : World) : List SubscriberId × List (Option SubscriberId) ×
    Arena (Option Binder) × Arena (Option (List SubscriberId)) × Arena (Option ViewModel) :=
  (w.handles, w.targets, w.binders, w.bundles, w.viewModels)

/-- How often an owner has a subscriber, unless the host program has given the owner up. -/
def tally (watchers : α → List SubscriberId) (s : SubscriberId) : Option α → Nat
  | none => 0
  | some owner => (watchers owner).count s

/-- How many owners a subscriber has. -/
def owners (w : World) (s : SubscriberId) : Nat :=
  w.handles.count s + w.binders.total (tally (·.watchers) s) + w.bundles.total (tally id s) +
    w.viewModels.total (tally (·.watchers) s)

private theorem any_iff_total_pos (xs : Arena (Option α)) (watchers : α → List SubscriberId)
    (s : SubscriberId) :
    xs.cells.any (fun x => x.any fun y => (watchers y).contains s) = true ↔
      0 < xs.total (tally watchers s) := by
  rw [Arena.total_pos_iff, ← Array.any_toList, List.any_eq_true]
  refine exists_congr fun x => and_congr_right fun _ => ?_
  cases x <;> simp [tally, List.count_pos_iff]

/-- A subscriber is held by an owner or because it collects. -/
theorem holds_iff {w : World} : w.holds s = true ↔ 0 < w.owners s ∨ some s ∈ w.targets := by
  have binders := any_iff_total_pos w.binders (·.watchers) s
  have bundles := any_iff_total_pos w.bundles id s
  have viewModels := any_iff_total_pos w.viewModels (·.watchers) s
  simp only [id] at bundles
  simp only [holds, Bool.or_eq_true, List.contains_iff_mem, binders, bundles, viewModels, owners,
    ← List.count_pos_iff]
  omega

/-- A view model holds its watchers. -/
theorem holds_of_viewModel {w : World} (found : w.viewModel? v = some view)
    (listed : s ∈ view.watchers) : w.holds s = true := by
  have present : w.viewModels.get? v.index = some (some view) := Option.join_eq_some_iff.mp found
  have counted : 0 < w.viewModels.total (tally (·.watchers) s) := by
    refine (Arena.total_pos_iff _ _).mpr ⟨some view, ?_, List.count_pos_iff.mpr listed⟩
    exact Array.mem_toList_iff.mpr (Array.mem_of_getElem? present)
  refine holds_iff.mpr (.inl ?_)
  simp only [owners]
  omega

theorem owners_of_custody {w w' : World} (same : w'.custody = w.custody) :
    w'.owners s = w.owners s := by
  simp only [custody, Prod.mk.injEq] at same
  obtain ⟨handles, -, binders, bundles, viewModels⟩ := same
  simp only [owners, handles, binders, bundles, viewModels]

theorem targets_of_custody {w w' : World} (same : w'.custody = w.custody) :
    w'.targets = w.targets := by
  simp only [custody, Prod.mk.injEq] at same
  exact same.2.1

theorem viewModels_of_custody {w w' : World} (same : w'.custody = w.custody) :
    w'.viewModels = w.viewModels := by
  simp only [custody, Prod.mk.injEq] at same
  exact same.2.2.2.2

theorem holds_of_custody {w w' : World} (same : w'.custody = w.custody) :
    w'.holds s = w.holds s := by
  rw [Bool.eq_iff_iff, holds_iff, holds_iff, owners_of_custody same, targets_of_custody same]

theorem binder?_of_custody {w w' : World} (same : w'.custody = w.custody) (b : BinderId) :
    w'.binder? b = w.binder? b := by
  simp only [custody, Prod.mk.injEq] at same
  simp only [binder?, same.2.2.1]

section Custody

@[simp] theorem custody_modifyNode (w : World) (n : NodeId) (f : Node → Node) :
    (w.modifyNode n f).custody = w.custody := rfl

@[simp] theorem custody_modifyObject (w : World) (o : ObjectId) (f : Properties → Properties) :
    (w.modifyObject o f).custody = w.custody := rfl

@[simp] theorem custody_depend (w : World) (d : DepId) : (w.depend d).custody = w.custody := by
  unfold depend
  split <;> rfl

@[simp] theorem custody_read (w : World) (o : ObjectId) (key : String) :
    (w.read o key).1.custody = w.custody := by
  unfold read
  split <;> simp

@[simp] theorem custody_observeAll (w : World) (pending : List Value) :
    (w.observeAll pending).custody = w.custody := by
  induction w, pending using observeAll.induct with
  | case1 w => rw [observeAll]
  | case2 w o rest ih =>
    rw [observeAll, ih]
    rfl
  | case3 w v rest plain ih =>
    rw [observeAll]
    · exact ih
    · exact plain

@[simp] theorem custody_observe (w : World) (v : Value) : (w.observe v).custody = w.custody :=
  custody_observeAll w [v]

@[simp] theorem custody_write (w : World) (o : ObjectId) (key : String) (value : Value) :
    (w.write o key value).1.custody = w.custody := by
  unfold write
  split
  · rfl
  · split
    · rfl
    · split <;> simp

@[simp] theorem custody_setText (w : World) (n : NodeId) (content : String) :
    (w.setText n content).custody = w.custody := by
  unfold setText
  split
  · rfl
  · rfl
  · split <;> rfl

@[simp] theorem custody_setControlValue (w : World) (n : NodeId) (value : String) :
    (w.setControlValue n value).custody = w.custody := rfl

@[simp] theorem custody_react (w : World) (reaction : Reaction) (value : Value) :
    (w.react reaction value).custody = w.custody := by
  cases reaction <;> simp [react]

@[simp] theorem custody_watch (w : World) (root : ObjectId) (key : String) (reaction : Reaction) :
    (w.watch root key reaction).1.custody = w.custody := by
  cases tracked : (w.properties root).dep? key with
  | none => rw [watch_of_plain reaction tracked]; rfl
  | some d => rw [watch_of_dep reaction tracked]; rfl

@[simp] theorem custody_build (w : World) (json : Json) : (w.build json).1.custody = w.custody := by
  obtain ⟨objects, built⟩ := build_eq w json
  rw [built]
  rfl

@[simp] theorem custody_dataObject (w : World) (v : Value) :
    (w.dataObject v).1.custody = w.custody := by
  cases v <;> rfl

end Custody

/-- The subscribers that binding has added, one after the other; nobody holds them yet. -/
structure Issues (w : World) (added : List SubscriberId) (w' : World) : Prop where
  custody : w'.custody = w.custody
  ids : added.map (·.index) = List.range' w.subscribers.size added.length
  size : w'.subscribers.size = w.subscribers.size + added.length

namespace Issues

theorem of_same {w w' : World} (custody : w'.custody = w.custody)
    (subscribers : w'.subscribers = w.subscribers) : Issues w [] w' :=
  ⟨custody, rfl, by rw [subscribers]; rfl⟩

theorem nil (w : World) : Issues w [] w := of_same rfl rfl

theorem append {a b c : World} (first : Issues a xs b) (second : Issues b ys c) :
    Issues a (xs ++ ys) c where
  custody := second.custody.trans first.custody
  ids := by
    rw [List.map_append, first.ids, second.ids, first.size, List.length_append,
      List.range'_append_1]
  size := by rw [second.size, first.size, List.length_append, Nat.add_assoc]

theorem mem_iff {w w' : World} (issues : Issues w added w') :
    s ∈ added ↔ ¬w.Known s ∧ w'.Known s := by
  have listed : s ∈ added ↔ s.index ∈ added.map (·.index) := by
    refine ⟨List.mem_map_of_mem, fun member => ?_⟩
    obtain ⟨t, present, same⟩ := List.mem_map.mp member
    obtain rfl : t = s := by cases t; cases s; simp_all
    exact present
  rw [listed, issues.ids, List.mem_range'_1, Known, Known, issues.size]
  omega

theorem nodup {w w' : World} (issues : Issues w added w') : added.Nodup := by
  apply List.Nodup.of_map (·.index)
  rw [issues.ids]
  exact List.nodup_range'

end Issues

theorem issues_watch (w : World) (root : ObjectId) (key : String) (reaction : Reaction) :
    Issues w [(w.watch root key reaction).2] (w.watch root key reaction).1 where
  custody := custody_watch w root key reaction
  ids := rfl
  size := by simp [subscribers_watch]

@[simp] theorem subscribers_read (w : World) (o : ObjectId) (key : String) :
    (w.read o key).1.subscribers = w.subscribers := by
  unfold read depend
  split
  · split <;> rfl
  · rfl

@[simp] theorem subscribers_setText (w : World) (n : NodeId) (content : String) :
    (w.setText n content).subscribers = w.subscribers := by
  unfold setText
  split
  · rfl
  · rfl
  · split <;> rfl

theorem issues_binding (data : ObjectId) (n : NodeId) : BindingKeeps data n Issues where
  nil := .nil
  append := .append
  read w key := .of_same (custody_read w data key) (subscribers_read w data key)
  setText w content := .of_same (custody_setText w n content) (subscribers_setText w n content)
  setControlValue w value := .of_same (custody_setControlValue w n value) rfl
  writeBack _ _ := .of_same rfl rfl
  watch w key reaction _ := issues_watch w data key reaction

theorem issues_bind {w w' : World} (bound : w.bind data root = some (w', watchers)) :
    Issues w watchers w' :=
  BindingKeeps.bind (issues_binding data) bound

/-- Nobody has an owner who had none, except for new subscribers, which have at most one. -/
def Entrusts (w w' : World) : Prop :=
  ∀ s, w'.owners s ≤ w.owners s ∨
    ¬w.Known s ∧ w'.Known s ∧ w'.owners s ≤ w.owners s + 1

theorem entrusts_of_custody {w w' : World} (same : w'.custody = w.custody) : Entrusts w w' :=
  fun _ => .inl (Nat.le_of_eq (owners_of_custody same))

/-- New watchers go to a single owner. -/
private theorem entrusts_of_issues {w w' w'' : World} (issues : Issues w added w')
    (subscribers : w''.subscribers = w'.subscribers)
    (owned : ∀ s, w''.owners s = w'.owners s + added.count s) : Entrusts w w'' := by
  intro s
  rw [owned, owners_of_custody issues.custody]
  by_cases new : s ∈ added
  · obtain ⟨unknown, known⟩ := issues.mem_iff.mp new
    refine .inr ⟨unknown, by rwa [Known, subscribers], ?_⟩
    exact Nat.add_le_add_left (List.nodup_iff_count_le_one.mp issues.nodup s) _
  · rw [List.count_eq_zero_of_not_mem new]
    exact .inl (Nat.le_refl _)

/-- Giving up an owner takes its share out of the sum. -/
private theorem total_release (xs : Arena (Option α)) (watchers : α → List SubscriberId)
    (s : SubscriberId) (i : Nat) :
    (xs.modify i fun _ => none).total (tally watchers s) + tally watchers s (xs.get? i).join =
      xs.total (tally watchers s) := by
  have moved := xs.total_modify (tally watchers s) (fun _ => none) i
  cases found : xs.get? i <;> simpa [found, tally] using moved

theorem owners_releaseBinder (w : World) (b : BinderId) (s : SubscriberId) :
    (w.releaseBinder b).owners s + tally (·.watchers) s (w.binder? b) = w.owners s := by
  have moved := total_release w.binders (·.watchers) s b.index
  simp only [owners, releaseBinder, binder?]
  omega

theorem owners_releaseBundle (w : World) (b : BundleId) (s : SubscriberId) :
    (w.releaseBundle b).owners s + tally id s (w.bundle? b) = w.owners s := by
  have moved := total_release w.bundles id s b.index
  simp only [owners, releaseBundle, bundle?]
  omega

theorem owners_releaseViewModel (w : World) (v : ViewModelId) (s : SubscriberId) :
    (w.releaseViewModel v).owners s + tally (·.watchers) s (w.viewModel? v) = w.owners s := by
  have moved := total_release w.viewModels (·.watchers) s v.index
  simp only [owners, releaseViewModel, viewModel?]
  omega

theorem owners_release (w : World) (s t : SubscriberId) :
    (w.release t).owners s ≤ w.owners s := by
  have fewer : (w.handles.erase t).count s ≤ w.handles.count s :=
    List.Sublist.count_le s List.erase_sublist
  simp only [owners, release]
  omega

theorem owners_hold (w : World) (s t : SubscriberId) :
    (w.hold t).owners s = w.owners s + if t = s then 1 else 0 := by
  simp only [owners, hold, List.count_cons, beq_iff_eq]
  omega

/-- A binder takes over the watchers that its binding has added. -/
private theorem owners_bound {w : World} (binder : Binder) (added : List SubscriberId)
    (found : w.binder? b = some binder) (s : SubscriberId) :
    let grown := { binder with watchers := binder.watchers ++ added }
    World.owners { w with binders := w.binders.modify b.index fun _ => some grown } s =
      w.owners s + added.count s := by
  intro grown
  have moved := w.binders.total_modify (tally (·.watchers) s) (fun _ => some grown) b.index
  have present : w.binders.get? b.index = some (some binder) := Option.join_eq_some_iff.mp found
  simp only [present, Option.map_some, Option.getD_some, tally, grown, List.count_append] at moved
  simp only [owners, grown]
  omega

theorem owners_mounted (w : World) (view : ViewModel) (s : SubscriberId) :
    World.owners { w with viewModels := w.viewModels.push (some view) } s =
      w.owners s + view.watchers.count s := by
  simp only [owners, Arena.total_push, tally]
  omega

/-- Detaching hands the watchers of a binder on to a bundle. -/
private theorem owners_detached {w : World} (found : w.binder? b = some binder) (s : SubscriberId) :
    World.owners { w.releaseBinder b with bundles := w.bundles.push (some binder.watchers) } s =
      w.owners s := by
  have given := owners_releaseBinder w b s
  simp only [found, tally] at given
  simp only [owners, releaseBinder, Arena.total_push, tally, id] at given ⊢
  omega

theorem Moves.known {w w' : World} (moves : Moves w w') (known : w.Known s) : w'.Known s := by
  obtain ⟨x, found⟩ := known_iff.mp known
  exact known_iff.mpr ⟨x, moves.grows.subscriber found⟩

/-- What happens before anything changes hands makes no difference. -/
private theorem Entrusts.after {a b c : World} (moves : Moves a b) (same : b.custody = a.custody)
    (entrusts : Entrusts b c) : Entrusts a c := by
  intro s
  rw [← owners_of_custody same]
  exact (entrusts s).imp_right fun ⟨unknown, rest⟩ => ⟨fun known => unknown (moves.known known), rest⟩

theorem entrusts_mount {w w' : World} (mounted : w.mount element value = some (w', vm)) :
    Entrusts w w' := by
  obtain ⟨bound, watchers, ran, rfl, -⟩ := mount_eq_some mounted
  have prepared : ((w.dataObject value).1.observe (.object (w.dataObject value).2)).custody =
      w.custody := by
    simp
  exact Entrusts.after ((moves_dataObject w value).trans (moves_observe _ _)) prepared
    (entrusts_of_issues (issues_bind ran) rfl (owners_mounted bound _))

/-- A request makes owners only of new subscribers. -/
theorem entrusts_perform {w w' : World} (done : w.perform a = some (w', reply)) :
    Entrusts w w' := by
  cases a with
  | newObject | newDep | leave | newText | newElement | appendChild | setAttribute =>
    cases done
    exact fun _ => .inl (Nat.le_refl _)
  | build json => cases done; exact entrusts_of_custody (custody_build w json)
  | read o key => cases done; exact entrusts_of_custody (custody_read w o key)
  | observe v => cases done; exact entrusts_of_custody (custody_observe w v)
  | depend d => cases done; exact entrusts_of_custody (custody_depend w d)
  | release t => cases done; exact fun s => .inl (owners_release w s t)
  | setText n content => cases done; exact entrusts_of_custody (custody_setText w n content)
  | setControlValue n value => cases done; exact entrusts_of_custody (custody_setControlValue w n value)
  | newBinder data =>
    cases done
    refine fun s => .inl (Nat.le_of_eq ?_)
    simp [owners, Arena.total_push, tally]
  | bind b root =>
    rcases perform_bind_cases done with rfl | ⟨binder, bound, watchers, found, ran, rfl⟩
    · exact entrusts_of_custody rfl
    · have issues := issues_bind ran
      have still := (binder?_of_custody issues.custody b).trans found
      exact entrusts_of_issues issues rfl (owners_bound binder watchers still)
  | detach b =>
    rcases perform_detach_cases done with rfl | ⟨binder, found, rfl⟩
    · exact entrusts_of_custody rfl
    · exact fun s => .inl (Nat.le_of_eq (owners_detached found s))
  | releaseBinder b =>
    cases done
    exact fun s => .inl (owners_releaseBinder w b s ▸ Nat.le_add_right _ _)
  | releaseBundle b =>
    cases done
    exact fun s => .inl (owners_releaseBundle w b s ▸ Nat.le_add_right _ _)
  | mount element value =>
    obtain ⟨vm, ran⟩ := perform_mount_eq_some done
    exact entrusts_mount ran
  | mountOptions options document =>
    rcases perform_mountOptions_cases done with ⟨rfl, -⟩ | ⟨vm, mounted⟩
    · exact entrusts_of_custody rfl
    · obtain ⟨element, ran⟩ := mountOptions_eq_some mounted
      exact Entrusts.after (moves_build w _) (custody_build w _) (entrusts_mount ran)
  | releaseViewModel v =>
    cases done
    exact fun s => .inl (owners_releaseViewModel w v s ▸ Nat.le_add_right _ _)

theorem targets_mount {w w' : World} (mounted : w.mount element value = some (w', vm)) :
    w'.targets = w.targets := by
  obtain ⟨bound, watchers, ran, rfl, -⟩ := mount_eq_some mounted
  have same : bound.targets = w.targets :=
    targets_of_custody ((issues_bind ran).custody.trans (by simp))
  exact same

/-- Only one request takes an entry off the stack, and none puts one onto it. -/
theorem targets_perform_of_ne {w w' : World} (done : w.perform a = some (w', reply))
    (stays : a ≠ .leave) : w'.targets = w.targets := by
  cases a with
  | leave => exact absurd rfl stays
  | newObject | newDep | release | newText | newElement | appendChild | setAttribute | newBinder
  | releaseBinder | releaseBundle | releaseViewModel =>
    cases done
    rfl
  | build json => cases done; exact targets_of_custody (custody_build w json)
  | read o key => cases done; exact targets_of_custody (custody_read w o key)
  | observe v => cases done; exact targets_of_custody (custody_observe w v)
  | depend d => cases done; exact targets_of_custody (custody_depend w d)
  | setText n content => cases done; exact targets_of_custody (custody_setText w n content)
  | setControlValue n value => cases done; rfl
  | bind b root =>
    rcases perform_bind_cases done with rfl | ⟨binder, bound, watchers, -, ran, rfl⟩
    · rfl
    · have same : bound.targets = w.targets := targets_of_custody (issues_bind ran).custody
      exact same
  | detach b => rcases perform_detach_cases done with rfl | ⟨binder, -, rfl⟩ <;> rfl
  | mount element value =>
    obtain ⟨vm, ran⟩ := perform_mount_eq_some done
    exact targets_mount ran
  | mountOptions options document =>
    rcases perform_mountOptions_cases done with ⟨rfl, -⟩ | ⟨vm, mounted⟩
    · rfl
    · obtain ⟨element, ran⟩ := mountOptions_eq_some mounted
      exact (targets_mount ran).trans (targets_of_custody (custody_build w _))

/-- A request takes subscribers off the stack at most. -/
theorem targets_perform {w w' : World} (done : w.perform a = some (w', reply)) :
    w'.targets <:+ w.targets := by
  by_cases leaves : a = .leave
  · subst leaves
    cases done
    exact List.tail_suffix _
  · exact targets_perform_of_ne done leaves ▸ List.suffix_refl _

end World
end DataBinding
