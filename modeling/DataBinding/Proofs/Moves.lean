import Mathlib.Logic.Relation
import DataBinding.Machine.Program
import DataBinding.Proofs.Slots
import DataBinding.Proofs.Walk

/-! What happens to a world while nobody is told of a change. Every operation that
tells nobody is a sequence of a few small moves; a property of worlds that each move
keeps is kept by all of them. -/
namespace DataBinding

/-- No two attributes of the node have the same name. -/
def Node.Tidy (n : Node) : Prop := (n.attributes.map (·.name)).Nodup

namespace World
open Relation

/-- The subscriber exists. -/
def Known (w : World) (s : SubscriberId) : Prop := s.index < w.subscribers.size

/-- A small change that leaves the values of tracked properties and the memory of the
subscribers alone. -/
inductive Move : World → World → Prop where
  | object (w : World) (entries : List (String × Value)) :
      Move w (w.newObject (.ofEntries entries)).1
  | add {w : World} (value : Value) (absent : (w.properties o).find? key = none) :
      Move w (w.addProperty o key value absent)
  | put {w : World} (value : Value) (found : w.slot? o key = some slot) (plain : slot.dep = none) :
      Move w (w.modifyObject o (·.replace key value))
  | track (w : World) (o : ObjectId) : Move w (w.trackObject o).1
  | dep (w : World) : Move w w.newDep.1
  | register {w : World} (d : DepId) (origin : some s ∈ w.targets ∨ w.Known s) :
      Move w (w.register d s)
  | subscribe (w : World) (c : CallbackId) : Move w (w.newSubscriber (.host c)).1
  | watch (w : World) (root : ObjectId) (key : String) (reaction : Reaction) :
      Move w (w.watch root key reaction).1
  /-- The stack of collecting subscribers changes; whoever comes onto it exists. -/
  | stack (w : World) (targets : List (Option SubscriberId))
      (origin : ∀ s, some s ∈ targets → some s ∈ w.targets ∨ w.Known s) :
      Move w { w with targets := targets }
  | node (w : World) (tidy : n.Tidy) : Move w (w.newNode n).1
  | edit (w : World) (n : NodeId) (tidy : ∀ x : Node, x.Tidy → (f x).Tidy) :
      Move w (w.modifyNode n f)
  /-- The host takes hold of things or gives them up. -/
  | custody (w : World) (handles : List SubscriberId) (binders : Arena (Option Binder))
      (bundles : Arena (Option (List SubscriberId))) (viewModels : Arena (Option ViewModel)) :
      Move w { w with
        handles := handles, binders := binders, bundles := bundles, viewModels := viewModels }

/-- Any number of moves. -/
abbrev Moves : World → World → Prop := ReflTransGen Move

section Pages

private theorem tidy_text (content : String) : (Node.text content).Tidy := List.nodup_nil

/-- An element keeps its attributes apart under a change that leaves them alone. -/
private theorem tidy_onElement (f : Element → Element) (same : ∀ e, (f e).attributes = e.attributes)
    (x : Node) (tidy : x.Tidy) : (x.onElement f).Tidy := by
  cases x with
  | text content => exact tidy
  | element e => simpa [Node.Tidy, Node.onElement, Node.attributes, same] using tidy

private theorem tidy_setAttribute (name value : String) (x : Node) (tidy : x.Tidy) :
    (x.onElement (·.setAttribute name value)).Tidy := by
  cases x with
  | text content => exact tidy
  | element e =>
    have apart : (e.attributes.map (·.name)).Nodup := tidy
    simp only [Node.onElement, Node.Tidy, Node.attributes, Element.setAttribute]
    split
    · have same : ((·.name) ∘ fun a : Attribute => if a.name == name then ⟨name, value⟩ else a) =
          (·.name) := by
        funext a
        by_cases named : a.name = name <;> simp [named]
      simp only [List.map_map, same]
      exact apart
    · rename_i absent
      rw [List.map_append, List.nodup_append]
      refine ⟨apart, by simp, ?_⟩
      intro old listed new added
      obtain ⟨a, member, rfl⟩ := List.mem_map.mp listed
      obtain rfl : new = name := by simpa using added
      intro named
      exact absent (List.any_eq_true.mpr ⟨a, member, by simpa using named⟩)

theorem moves_setText (w : World) (n : NodeId) (content : String) :
    Moves w (w.setText n content) := by
  unfold setText
  split
  · exact .refl
  · exact .single (.edit w n fun _ _ => tidy_text content)
  · split
    · exact .single (.edit w n (tidy_onElement _ fun _ => rfl))
    · exact .tail (.single (.node w (tidy_text content))) (.edit _ n (tidy_onElement _ fun _ => rfl))

theorem moves_setControlValue (w : World) (n : NodeId) (value : String) :
    Moves w (w.setControlValue n value) :=
  .single (.edit w n (tidy_onElement _ fun _ => rfl))

theorem moves_listen (w : World) (n : NodeId) (listener : Listener) :
    Moves w (w.listen n listener) :=
  .single (.edit w n (tidy_onElement _ fun _ => rfl))

theorem moves_react (w : World) (reaction : Reaction) (value : Value) :
    Moves w (w.react reaction value) := by
  cases reaction with
  | callback c => exact .refl
  | showText n => exact moves_setText w n _
  | showValue n => exact moves_setControlValue w n _

end Pages

section Data

theorem moves_depend (w : World) (d : DepId) : Moves w (w.depend d) := by
  unfold depend
  split
  · rename_i s collecting
    refine .single (.register d (.inl ?_))
    unfold target? at collecting
    cases stack : w.targets with
    | nil => simp [stack] at collecting
    | cons top rest =>
      obtain rfl : top = some s := by simpa [stack] using collecting
      exact List.mem_cons_self
  · exact .refl

theorem moves_read (w : World) (o : ObjectId) (key : String) : Moves w (w.read o key).1 := by
  unfold read
  split
  · exact moves_depend w _
  · exact .refl

theorem moves_observeAll (w : World) (pending : List Value) : Moves w (w.observeAll pending) := by
  induction w, pending using observeAll.induct with
  | case1 w => simpa only [observeAll] using ReflTransGen.refl
  | case2 w o rest ih =>
    rw [observeAll]
    exact .head (.track w o) ih
  | case3 w v rest plain ih => 
    rw [observeAll]
    · exact ih
    · exact plain

theorem moves_observe (w : World) (v : Value) : Moves w (w.observe v) := moves_observeAll w [v]

/-- A write that tells somebody has stored another value in a tracked property. -/
theorem write_eq_some {w w' : World} (written : w.write o key value = (w', some d)) :
    ∃ slot, w.slot? o key = some slot ∧ slot.dep = some d ∧ slot.value.same value = false ∧
      w' = (w.modifyObject o (·.replace key value)).observe value := by
  unfold write at written
  split at written
  · cases written
  · rename_i slot found
    split at written
    · cases written
    · rename_i d' tracked
      split at written
      · cases written
      · rename_i changes
        cases written
        exact ⟨slot, found, tracked, by simpa using changes, rfl⟩

/-- A write that tells nobody adds a property, stores in one that is not tracked, or finds the value
there. -/
theorem write_eq_none {w w' : World} (silent : w.write o key value = (w', none)) :
    (∃ absent : (w.properties o).find? key = none, w' = w.addProperty o key value absent) ∨
    ∃ slot, w.slot? o key = some slot ∧
      (slot.dep = none ∧ w' = w.modifyObject o (·.replace key value) ∨
        slot.value.same value = true ∧ w' = w) := by
  unfold write at silent
  split at silent
  · rename_i absent
    cases silent
    exact .inl ⟨absent, rfl⟩
  · rename_i slot found
    refine .inr ⟨slot, found, ?_⟩
    split at silent
    · rename_i plain
      cases silent
      exact .inl ⟨plain, rfl⟩
    · split at silent
      · rename_i same
        cases silent
        exact .inr ⟨same, rfl⟩
      · cases silent

theorem moves_write {w w' : World} (silent : w.write o key value = (w', none)) : Moves w w' := by
  rcases write_eq_none silent with ⟨absent, rfl⟩ | ⟨slot, found, ⟨plain, rfl⟩ | ⟨-, rfl⟩⟩
  · exact .single (.add value absent)
  · exact .single (.put value found plain)
  · exact .refl

/-- What holds of a world and the world in which an object has been added, and is kept when objects are
added one after the other. -/
structure BuildingKeeps (R : World → World → Prop) : Prop where
  refl (w : World) : R w w
  trans {a b c : World} : R a b → R b c → R a c
  newObject (w : World) (entries : List (String × Value)) : R w (w.newObject (.ofEntries entries)).1

namespace BuildingKeeps

variable {R : World → World → Prop}

mutual

theorem build (keeps : BuildingKeeps R) (w : World) : (json : Json) → R w (w.build json).1
  | .null | .bool _ | .number _ | .string _ => keeps.refl w
  | .array items => keeps.trans (keeps.buildItems w 0 items) (keeps.newObject _ _)
  | .object members => keeps.trans (keeps.buildMembers w members) (keeps.newObject _ _)

theorem buildItems (keeps : BuildingKeeps R) (w : World) (number : Nat) :
    (items : List Json) → R w (w.buildItems number items).1
  | [] => keeps.refl w
  | item :: rest => keeps.trans (keeps.build w item) (keeps.buildItems _ (number + 1) rest)

theorem buildMembers (keeps : BuildingKeeps R) (w : World) :
    (members : List (String × Json)) → R w (w.buildMembers members).1
  | [] => keeps.refl w
  | (_, json) :: rest => keeps.trans (keeps.build w json) (keeps.buildMembers _ rest)

end

theorem dataObject (keeps : BuildingKeeps R) (w : World) (v : Value) : R w (w.dataObject v).1 := by
  cases v with
  | object o => exact keeps.refl w
  | _ => exact keeps.newObject w []

end BuildingKeeps

theorem moves_building : BuildingKeeps Moves where
  refl _ := .refl
  trans := .trans
  newObject w entries := .single (.object w entries)

theorem moves_build (w : World) (json : Json) : Moves w (w.build json).1 := moves_building.build w json

theorem moves_dataObject (w : World) (v : Value) : Moves w (w.dataObject v).1 :=
  moves_building.dataObject w v

theorem objects_building : BuildingKeeps fun a b => ∃ objects, b = { a with objects := objects } where
  refl _ := ⟨_, rfl⟩
  trans := by
    rintro a _ _ ⟨_, rfl⟩ ⟨objects, rfl⟩
    exact ⟨objects, rfl⟩
  newObject _ _ := ⟨_, rfl⟩

/-- Building a value adds objects and nothing else. -/
theorem build_eq (w : World) (json : Json) : ∃ objects, (w.build json).1 = { w with objects := objects } :=
  objects_building.build w json

theorem dataObject_eq (w : World) (v : Value) :
    ∃ objects, (w.dataObject v).1 = { w with objects := objects } :=
  objects_building.dataObject w v

end Data

section Binding

variable {data : ObjectId}

theorem moves_binding (data : ObjectId) (n : NodeId) :
    BindingKeeps data n fun a _ b => Moves a b where
  nil _ := .refl
  append := .trans
  read w key := moves_read w data key
  setText w content := moves_setText w n content
  setControlValue w value := moves_setControlValue w n value
  writeBack w key := moves_listen w n (.writeBack data key)
  watch w key reaction _ := .single (.watch w data key reaction)

theorem moves_bind {w w' : World} (bound : w.bind data root = some (w', watchers)) :
    Moves w w' :=
  BindingKeeps.bind (moves_binding data) bound

/-- A mount observes the data, binds the page and keeps the watchers. -/
theorem mount_eq_some {w w' : World} (mounted : w.mount element value = some (w', vm)) :
    ∃ bound watchers,
      ((w.dataObject value).1.observe (.object (w.dataObject value).2)).bind
        (w.dataObject value).2 element = some (bound, watchers) ∧
      w' = { bound with viewModels :=
        bound.viewModels.push (some ⟨element, (w.dataObject value).2, watchers⟩) } ∧
      vm = ⟨bound.viewModels.size⟩ := by
  simp only [mount, Option.bind_eq_bind, Option.bind_eq_some_iff] at mounted
  obtain ⟨⟨bound, watchers⟩, ran, stored⟩ := mounted
  cases stored
  exact ⟨bound, watchers, ran, rfl, rfl⟩

/-- Options that are not refused are mounted on what their document has been built into. -/
theorem mountOptions_eq_some {w w' : World}
    (mounted : w.mountOptions document options = some (.ok (w', vm))) :
    ∃ element, (w.build options.data).1.mount element (w.build options.data).2 = some (w', vm) := by
  unfold mountOptions at mounted
  obtain ⟨found, -, goes⟩ := Option.bind_eq_some_iff.mp mounted
  cases found with
  | error e => cases goes
  | ok element =>
    obtain ⟨_, inner, same⟩ := Option.bind_eq_some_iff.mp goes
    cases same
    exact ⟨element, inner⟩

/-- A binder binds a page, unless it is gone. -/
theorem perform_bind_cases {w w' : World} (done : w.perform (.bind b root) = some (w', reply)) :
    w' = w ∨ ∃ binder bound watchers, w.binder? b = some binder ∧
      w.bind binder.data root = some (bound, watchers) ∧
      w' = { bound with binders := bound.binders.modify b.index fun _ =>
        (some { binder with watchers := binder.watchers ++ watchers }) } := by
  simp only [perform] at done
  split at done
  · cases done
    exact .inl rfl
  · rename_i binder found
    obtain ⟨⟨bound, watchers⟩, ran, stored⟩ := Option.bind_eq_some_iff.mp done
    cases stored
    exact .inr ⟨binder, bound, watchers, found, ran, rfl⟩

/-- A binder hands its watchers over to a bundle, unless it is gone. -/
theorem perform_detach_cases {w w' : World} (done : w.perform (.detach b) = some (w', reply)) :
    w' = w ∨ ∃ binder, w.binder? b = some binder ∧
      w' = { w.releaseBinder b with bundles := w.bundles.push (some binder.watchers) } := by
  simp only [perform] at done
  split at done
  · cases done
    exact .inl rfl
  · rename_i binder found
    cases done
    exact .inr ⟨binder, found, rfl⟩

theorem perform_mount_eq_some {w w' : World}
    (done : w.perform (.mount element value) = some (w', reply)) :
    ∃ vm, w.mount element value = some (w', vm) := by
  obtain ⟨⟨_, vm⟩, ran, stored⟩ := Option.bind_eq_some_iff.mp done
  cases stored
  exact ⟨vm, ran⟩

/-- Options are refused, and nothing has happened then, or they are mounted. -/
theorem perform_mountOptions_cases {w w' : World}
    (done : w.perform (.mountOptions options document) = some (w', reply)) :
    w' = w ∧ (∃ e, w.mountOptions document options = some (.error e)) ∨
      ∃ vm, w.mountOptions document options = some (.ok (w', vm)) := by
  obtain ⟨result, ran, stored⟩ := Option.map_eq_some_iff.mp done
  cases result with
  | error e =>
    cases stored
    exact .inl ⟨rfl, e, ran⟩
  | ok mounted =>
    cases stored
    exact .inr ⟨_, ran⟩

theorem moves_mount {w w' : World} (mounted : w.mount element value = some (w', vm)) :
    Moves w w' := by
  obtain ⟨bound, watchers, ran, rfl, -⟩ := mount_eq_some mounted
  exact (((moves_dataObject w value).trans (moves_observe _ _)).trans (moves_bind ran)).tail
    (.custody _ _ _ _ _)

end Binding

/-- A request that runs no callback makes moves and nothing else. -/
theorem moves_perform {w w' : World} (done : w.perform a = some (w', reply)) : Moves w w' := by
  cases a with
  | newObject entries => cases done; exact .single (.object w entries)
  | build json => cases done; exact moves_build w json
  | read o key => cases done; exact moves_read w o key
  | observe v => cases done; exact moves_observe w v
  | newDep => cases done; exact .single (.dep w)
  | depend d => cases done; exact moves_depend w d
  | leave =>
    cases done
    exact .single (.stack w _ fun s member => .inl (List.mem_of_mem_tail member))
  | release s => cases done; exact .single (.custody w _ _ _ _)
  | newText content => cases done; exact .single (.node w (tidy_text content))
  | newElement tag => cases done; exact .single (.node w List.nodup_nil)
  | appendChild n child => cases done; exact .single (.edit w n (tidy_onElement _ fun _ => rfl))
  | setText n content => cases done; exact moves_setText w n content
  | setAttribute n name value => cases done; exact .single (.edit w n (tidy_setAttribute name value))
  | setControlValue n value => cases done; exact moves_setControlValue w n value
  | newBinder data => cases done; exact .single (.custody w _ _ _ _)
  | bind b root =>
    rcases perform_bind_cases done with rfl | ⟨binder, bound, watchers, -, ran, rfl⟩
    · exact .refl
    · exact (moves_bind ran).tail (.custody _ _ _ _ _)
  | detach b =>
    rcases perform_detach_cases done with rfl | ⟨binder, -, rfl⟩
    · exact .refl
    · exact .single (.custody w _ _ _ _)
  | releaseBinder b => cases done; exact .single (.custody w _ _ _ _)
  | releaseBundle b => cases done; exact .single (.custody w _ _ _ _)
  | mount element value =>
    obtain ⟨vm, ran⟩ := perform_mount_eq_some done
    exact moves_mount ran
  | mountOptions options document =>
    rcases perform_mountOptions_cases done with ⟨rfl, -⟩ | ⟨vm, mounted⟩
    · exact .refl
    · obtain ⟨element, ran⟩ := mountOptions_eq_some mounted
      exact (moves_build w _).trans (moves_mount ran)
  | releaseViewModel v => cases done; exact .single (.custody w _ _ _ _)

end World
end DataBinding
