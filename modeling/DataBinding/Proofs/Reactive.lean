import DataBinding.Proofs.Controls
import DataBinding.Proofs.Deeds
import DataBinding.Proofs.Observing

/-! Reactive closure. As long as no object gets another key once it has been observed, all
that is held by a tracked property is tracked itself, and so is all that can be reached
from there. A value that is stored in a tracked property is observed before anybody is told
of it, so no moment of a run is an exception. -/
namespace DataBinding

namespace World

/-- Only what was tracked before is tracked, and an object that existed is as it was. -/
structure Rests (w w' : World) : Prop where
  tracked : slot ∈ (w'.properties o).slots → slot.dep ≠ none → slot ∈ (w.properties o).slots
  kept : o.index < w.objects.size → w'.properties o = w.properties o
  size : w.objects.size ≤ w'.objects.size

namespace Rests

theorem of_objects {w w' : World} (same : w'.objects = w.objects) : Rests w w' where
  tracked there _ := by rwa [properties, same] at there
  kept _ := by rw [properties, properties, same]
  size := Nat.le_of_eq (by rw [same])

theorem trans {a b c : World} (first : Rests a b) (second : Rests b c) : Rests a c where
  tracked there listed := first.tracked (second.tracked there listed) listed
  kept inside := (second.kept (Nat.lt_of_lt_of_le inside first.size)).trans (first.kept inside)
  size := Nat.le_trans first.size second.size

theorem newObject (w : World) (entries : List (String × Value)) :
    Rests w (w.newObject (.ofEntries entries)).1 where
  tracked {o slot} there listed := by
    rw [properties, World.newObject, Arena.get?_push] at there
    split at there
    · obtain ⟨i, found⟩ := List.mem_iff_getElem?.mp there
      have plain := plain_ofEntries entries slot.key slot
        (Properties.find?_eq_some_iff.mpr ⟨i, found, rfl⟩)
      exact absurd plain listed
    · exact there
  kept {o} inside := by
    rw [properties, World.newObject, Arena.get?_push, if_neg (Nat.ne_of_lt inside)]
    rfl
  size := by simp [World.newObject]

theorem building : BuildingKeeps Rests where
  refl _ := of_objects rfl
  trans := trans
  newObject := newObject

theorem build (w : World) (json : Json) : Rests w (w.build json).1 := building.build w json

theorem buildItems (w : World) (number : Nat) (items : List Json) :
    Rests w (w.buildItems number items).1 :=
  building.buildItems w number items

theorem buildMembers (w : World) (members : List (String × Json)) :
    Rests w (w.buildMembers members).1 :=
  building.buildMembers w members

theorem dataObject (w : World) (v : Value) : Rests w (w.dataObject v).1 := building.dataObject w v

end Rests

section Binding

variable {data : ObjectId}

theorem objects_binding (data : ObjectId) (n : NodeId) :
    BindingKeeps data n fun a _ b => b.objects = a.objects where
  nil _ := rfl
  append first second := second.trans first
  read w key := objects_read w data key
  setText w content := objects_setText w n content
  setControlValue _ _ := rfl
  writeBack _ _ := rfl
  watch w key reaction _ := objects_watch w data key reaction

/-- Binding a page reads objects and changes none. -/
theorem objects_bind {w w' : World} (bound : w.bind data root = some (w', watchers)) :
    w'.objects = w.objects :=
  BindingKeeps.bind (objects_binding data) bound

end Binding

/-- The value that a request observes, and the world in which it does. -/
def observing? (w : World) : Action → Option (World × Value)
  | .observe v => some (w, v)
  | .mount element v =>
    (w.mount element v).map fun _ => ((w.dataObject v).1, .object (w.dataObject v).2)
  | .mountOptions options document =>
    match w.mountOptions document options with
    | some (.ok _) =>
      let (w, v) := w.build options.data
      some ((w.dataObject v).1, .object (w.dataObject v).2)
    | _ => none
  | _ => none

private theorem objects_mount {w w' : World} (mounted : w.mount element v = some (w', vm)) :
    w'.objects = ((w.dataObject v).1.observe (.object (w.dataObject v).2)).objects := by
  obtain ⟨bound, watchers, ran, rfl, -⟩ := mount_eq_some mounted
  have objects := objects_bind ran
  exact objects

/-- A request that runs no callback adds objects, observes a value in the end, or does neither. -/
theorem rests_perform {w w' : World} (done : w.perform a = some (w', reply)) :
    w.observing? a = none ∧ Rests w w' ∨
    ∃ w₀ v, w.observing? a = some (w₀, v) ∧ Rests w w₀ ∧ Moves w w₀ ∧
      w'.objects = (w₀.observe v).objects := by
  cases a with
  | observe v =>
    cases done
    exact .inr ⟨w, v, rfl, .of_objects rfl, .refl, rfl⟩
  | mount element v =>
    obtain ⟨vm, ran⟩ := perform_mount_eq_some done
    exact .inr ⟨_, _, by simp [observing?, ran], .dataObject w v, moves_dataObject w v,
      objects_mount ran⟩
  | mountOptions options document =>
    rcases perform_mountOptions_cases done with ⟨rfl, e, refused⟩ | ⟨vm, mounted⟩
    · exact .inl ⟨by simp [observing?, refused], .of_objects rfl⟩
    · have observes : w.observing? (.mountOptions options document) = some
          (((w.build options.data).1.dataObject (w.build options.data).2).1,
            .object ((w.build options.data).1.dataObject (w.build options.data).2).2) := by
        simp [observing?, mounted]
      obtain ⟨element, ran⟩ := mountOptions_eq_some mounted
      exact .inr ⟨_, _, observes, (Rests.build w _).trans (.dataObject _ _),
        (moves_build w _).trans (moves_dataObject _ _), objects_mount ran⟩
  | newObject entries =>
    cases done
    exact .inl ⟨rfl, .newObject w entries⟩
  | build json =>
    cases done
    exact .inl ⟨rfl, .build w json⟩
  | read o key =>
    cases done
    exact .inl ⟨rfl, .of_objects (objects_read w o key)⟩
  | depend d =>
    cases done
    refine .inl ⟨rfl, .of_objects ?_⟩
    unfold depend
    split <;> rfl
  | setText n content =>
    cases done
    exact .inl ⟨rfl, .of_objects (objects_setText w n content)⟩
  | bind b root =>
    refine .inl ⟨rfl, ?_⟩
    rcases perform_bind_cases done with rfl | ⟨binder, bound, watchers, -, ran, rfl⟩
    · exact .of_objects rfl
    · have objects := objects_bind ran
      exact .of_objects objects
  | detach b =>
    refine .inl ⟨rfl, ?_⟩
    rcases perform_detach_cases done with rfl | ⟨binder, -, rfl⟩ <;> exact .of_objects rfl
  | newDep | leave | release | newText | newElement | appendChild | setAttribute
  | setControlValue | newBinder | releaseBinder | releaseBundle | releaseViewModel =>
    cases done
    exact .inl ⟨rfl, .of_objects rfl⟩

/-- A request that never ends observes nothing. -/
theorem observing?_of_endless {w : World} (endless : w.perform a = none) :
    w.observing? a = none := by
  cases a with
  | mount element v =>
    rw [observing?, Option.map_eq_none_iff]
    exact Option.eq_none_iff_forall_ne_some.mpr fun mounted ran => by simp [perform, ran] at endless
  | mountOptions options document =>
    have never : w.mountOptions document options = none := Option.map_eq_none_iff.mp endless
    simp [observing?, never]
  | observe v => cases endless
  | _ => rfl

/-- A write that tells nobody concerns no tracked property. -/
theorem tracked_write {w w' : World} (silent : w.write o key value = (w', none))
    (there : slot ∈ (w'.properties x).slots) (listed : slot.dep ≠ none) :
    slot ∈ (w.properties x).slots := by
  rcases write_eq_none silent with ⟨absent, rfl⟩ | ⟨slot', found, ⟨plain, rfl⟩ | ⟨-, rfl⟩⟩
  · rcases properties_addProperty_cases value absent x with same | ⟨rfl, same⟩
    · exact same ▸ there
    · rw [same, Properties.slots_append] at there
      rcases List.mem_append.mp there with old | new
      · exact old
      · obtain rfl := List.mem_singleton.mp new
        exact absurd rfl listed
  · rcases properties_modifyObject_cases w o (·.replace key value) x with same | ⟨rfl, same⟩
    · exact same ▸ there
    · obtain ⟨i, placed⟩ := List.mem_iff_getElem?.mp there
      rw [same, Properties.getElem?_replace] at placed
      obtain ⟨before, was, rfl⟩ := Option.map_eq_some_iff.mp placed
      split at listed
      · rename_i named
        have held := Properties.find?_eq_some_iff.mpr ⟨i, was, named⟩
        obtain rfl := Option.some.inj (held.symm.trans found)
        exact absurd plain listed
      · rename_i other
        rw [if_neg other]
        exact List.mem_of_getElem? was
  · exact there

end World

namespace Machine
open World

variable {σ : Type}

/-- The value that the next step observes, and the world in which it does: a request observes
it, or it has just been stored in a tracked property that held another one. -/
def observing? (m : Machine σ) : Option (World × Value) :=
  match m.frames with
  | .program (.call (.act a) _) :: _ => m.world.observing? a
  | _ => m.writing?.bind fun call => (m.world.write call.root call.key call.value).2.map fun _ =>
      (m.world.modifyObject call.root (·.replace call.key call.value), call.value)

/-- What one step does with the objects. -/
inductive Concerns (m : Machine σ) : Prop where
  /-- Nothing is observed, and no key is added. -/
  | rests (nothing : m.observing? = none) (rests : Rests m.world m.step.world)
  /-- Something is written that changes no tracked property. -/
  | silent (nothing : m.observing? = none) (calling : m.writing? = some call)
      (written : m.world.write call.root call.key call.value = (m.step.world, none))
  /-- A tracked property changes, and its new value is observed. -/
  | stores (calling : m.writing? = some call)
      (observes : m.observing? =
        some (m.world.modifyObject call.root (·.replace call.key call.value), call.value))
      (objects : m.step.world.objects =
        ((m.world.modifyObject call.root (·.replace call.key call.value)).observe
          call.value).objects)
  /-- A value is observed, possibly after objects have been added. -/
  | observes (observes : m.observing? = some (w, v)) (rests : Rests m.world w)
      (moves : Moves m.world w) (objects : m.step.world.objects = (w.observe v).objects)

private theorem concerns_writing {m : Machine σ} (calling : m.writing? = some call) :
    Concerns m := by
  have observing : m.observing? = (m.world.write call.root call.key call.value).2.map fun _ =>
      (m.world.modifyObject call.root (·.replace call.key call.value), call.value) := by
    unfold observing?
    split
    · rename_i due
      simp [writing?, due] at calling
    · rw [calling, Option.bind_some]
  have stepped := step_of_writing calling
  have world := (caller_of_writing calling).1
  unfold Machine.write at stepped
  rw [world] at stepped
  cases written : m.world.write call.root call.key call.value with
  | mk w d? =>
    rw [written] at observing stepped
    cases d? with
    | none =>
      have now : m.step.world = w := by rw [stepped]
      exact .silent observing calling (written.trans (by rw [now]))
    | some d =>
      obtain ⟨slot, -, -, -, rfl⟩ := write_eq_some written
      exact .stores calling observing (by rw [stepped]; rfl)

private theorem concerns_act {m : Machine σ}
    (due : m.frames = .program (.call (.act a) next) :: below) : Concerns m := by
  have observing : m.observing? = m.world.observing? a := by simp only [observing?, due]
  rcases step_of_acting due with ⟨reply, done⟩ | ⟨endless, targets, same⟩
  · rcases rests_perform done with ⟨nothing, rests⟩ | ⟨w₀, v, observes, rests, moves, objects⟩
    · exact .rests (observing.trans nothing) rests
    · exact .observes (observing.trans observes) rests moves objects
  · exact .rests (observing.trans (observing?_of_endless endless)) (.of_objects (by rw [same]))

/-- Steps other than actions and writes leave the objects alone. -/
theorem objects_step {m : Machine σ} (calling : m.writing? = none)
    (other : ∀ a next below, m.frames ≠ .program (.call (.act a) next) :: below) :
    m.step.world.objects = m.world.objects := by
  have deed := step_deed m
  generalize m.step = m' at deed ⊢
  cases deed with
  | acts due => exact absurd due (other _ _ _)
  | writes calling' => cases calling.symm.trans calling'
  | tells => exact (update_same _ _).1
  | notifies => rfl
  | watches root key callback world =>
    rw [world]
    exact objects_watch _ root key _
  | rests world | hides _ _ world => rw [world]
  | subscribes _ world | listens _ _ world | registers _ _ _ _ world | enters _ _ _ _ world
  | types _ _ world =>
    rw [world]
    rfl

theorem step_concerns (m : Machine σ) : Concerns m := by
  cases calling : m.writing? with
  | some call => exact concerns_writing calling
  | none =>
    by_cases acting : ∃ a next below, m.frames = .program (.call (.act a) next) :: below
    · obtain ⟨a, next, below, due⟩ := acting
      exact concerns_act due
    · simp only [not_exists] at acting
      refine .rests ?_ (.of_objects (objects_step calling acting))
      unfold observing?
      split
      · rename_i due
        exact absurd due (acting _ _ _)
      · rw [calling]
        rfl

end Machine

namespace World

/-- Where a value is stored, each property was as it is now or holds that value. -/
theorem slots_replace {w : World}
    (there : slot ∈ ((w.modifyObject o (·.replace key value)).properties x).slots) :
    ∃ before ∈ (w.properties x).slots, slot.key = before.key ∧ slot.dep = before.dep ∧
      (slot.value = before.value ∨ slot.value = value) := by
  rcases properties_modifyObject_cases w o (·.replace key value) x with same | ⟨rfl, same⟩
  · exact ⟨slot, same ▸ there, rfl, rfl, .inl rfl⟩
  · obtain ⟨i, found⟩ := List.mem_iff_getElem?.mp there
    rw [same, Properties.getElem?_replace] at found
    obtain ⟨before, was, rfl⟩ := Option.map_eq_some_iff.mp found
    refine ⟨before, List.mem_of_getElem? was, ?_⟩
    split
    · exact ⟨rfl, rfl, .inr rfl⟩
    · exact ⟨rfl, rfl, .inl rfl⟩

/-- A property was as it is now, or it became tracked where the walk came. -/
theorem slots_observeAll {w : World}
    (there : slot ∈ ((w.observeAll pending).properties o).slots) :
    slot ∈ (w.properties o).slots ∨ w.Reached pending o ∧ slot.dep ≠ none ∧
      ∃ before ∈ (w.properties o).slots, before.dep = none ∧ before.value = slot.value := by
  obtain ⟨i, found⟩ := List.mem_iff_getElem?.mp there
  rcases (marks_observeAll w pending).origin found with
    ⟨was, -⟩ | ⟨reached, before, d, was, plain, rfl⟩
  · exact .inl (List.mem_of_getElem? was)
  · exact .inr ⟨reached, nofun, before, List.mem_of_getElem? was, plain, rfl⟩

/-- Objects that were observed, and only those, have tracked properties, all of theirs are
tracked, and what these hold was observed or is about to be. -/
structure Reactive (w : World) (seen : ObjectId → Prop) (pending : List Value) : Prop where
  marked : slot ∈ (w.properties o).slots → slot.dep ≠ none → seen o
  whole : seen o → slot ∈ (w.properties o).slots → slot.dep ≠ none
  held : slot ∈ (w.properties o).slots → slot.dep ≠ none → slot.value = .object x →
    seen x ∨ .object x ∈ pending

namespace Reactive

theorem of_objects {w w' : World} (reactive : Reactive w seen pending)
    (same : w'.objects = w.objects) : Reactive w' seen pending where
  marked there := reactive.marked (by rwa [properties, same] at there)
  whole among there := reactive.whole among (by rwa [properties, same] at there)
  held there := reactive.held (by rwa [properties, same] at there)

theorem mono {w : World} (reactive : Reactive w seen []) : Reactive w seen pending where
  marked := reactive.marked
  whole := reactive.whole
  held there listed leads := .inl ((reactive.held there listed leads).resolve_right (by simp))

/-- Where nothing becomes tracked and no object that was observed gets another key, all
stays as it is. -/
theorem rests {w w' : World} (reactive : Reactive w seen pending) (retains : Retains w w')
    (tracked : ∀ {o slot}, slot ∈ (w'.properties o).slots → slot.dep ≠ none →
      slot ∈ (w.properties o).slots)
    (kept : ∀ o, seen o → (w'.properties o).keys = (w.properties o).keys) :
    Reactive w' seen pending where
  marked there listed := reactive.marked (tracked there listed) listed
  whole {o slot} among there := by
    obtain ⟨i, found⟩ := List.mem_iff_getElem?.mp there
    obtain ⟨before, was⟩ := Properties.getElem?_of_keys (kept o among) found
    obtain ⟨d, listed⟩ :=
      Option.ne_none_iff_exists'.mp (reactive.whole among (List.mem_of_getElem? was))
    obtain ⟨later, now, -, still⟩ := retains o i before was
    obtain rfl := Option.some.inj (found.symm.trans now)
    exact still d listed ▸ nofun
  held there listed := reactive.held (tracked there listed) listed

/-- A value that is stored is about to be observed. -/
theorem replace {w : World} (reactive : Reactive w seen []) (o : ObjectId) (key : String)
    (value : Value) : Reactive (w.modifyObject o (·.replace key value)) seen [value] := by
  constructor
  · intro x slot there listed
    obtain ⟨before, was, -, same, -⟩ := slots_replace there
    exact reactive.marked was (same ▸ listed)
  · intro x slot among there
    obtain ⟨before, was, -, same, -⟩ := slots_replace there
    exact same ▸ reactive.whole among was
  · intro x slot y there listed leads
    obtain ⟨before, was, -, same, kept | stored⟩ := slots_replace there
    · exact .inl ((reactive.held was (same ▸ listed) (kept ▸ leads)).resolve_right (by simp))
    · exact .inr (by simp [← stored, leads])

/-- Once the pending values are observed, nothing is pending, and what the walk has come to
is observed as well. -/
theorem observe {w : World} (reactive : Reactive w seen pending) :
    Reactive (w.observeAll pending) (fun o => seen o ∨ w.Reached pending o) [] := by
  constructor
  · intro o slot there listed
    rcases slots_observeAll there with was | ⟨reached, -⟩
    · exact .inl (reactive.marked was listed)
    · exact .inr reached
  · rintro o slot (early | reached) there
    · rcases slots_observeAll there with was | ⟨-, -, before, was, plain, -⟩
      · exact reactive.whole early was
      · exact absurd plain (reactive.whole early was)
    · exact tracked_observeAll reached there
  · intro o slot x there listed leads
    left
    rcases slots_observeAll there with was | ⟨reached, -, before, was, plain, same⟩
    · exact (reactive.held was listed leads).imp_right .given
    · exact .inr (reached.through was plain (same.trans leads))

end Reactive

/-- What can be reached from an object, whether properties are tracked or not. -/
inductive Contains (w : World) (o : ObjectId) : ObjectId → Prop where
  | self : Contains w o o
  | through (contains : Contains w o x) (there : slot ∈ (w.properties x).slots)
      (leads : slot.value = .object y) : Contains w o y

end World

namespace Machine
open World

variable {σ : Type}

/-- The next step observes the object, by itself or as part of what it observes. -/
def Observes (m : Machine σ) (o : ObjectId) : Prop :=
  ∃ w v, m.observing? = some (w, v) ∧ w.Reached [v] o

/-- The machine comes about by running programs one after the other, in which no object gets
another key once it was observed; these are the objects that were. -/
inductive Observant : Machine σ → (ObjectId → Prop) → Prop where
  | initial (host : σ) : Observant { host := host } (fun _ => False)
  | step {m : Machine σ} (before : Observant m seen)
      (kept : ∀ o, seen o → (m.step.world.properties o).keys = (m.world.properties o).keys) :
      Observant m.step (fun o => seen o ∨ m.Observes o)
  | start {m : Machine σ} (before : Observant m seen) (idle : m.idle = true) (host : σ)
      (p : Program σ) : Observant (start { m with host := host } p) seen

theorem Observant.reachable {m : Machine σ} (observant : Observant m seen) : m.Reachable := by
  induction observant with
  | initial host => exact reachable_initial host
  | step _ _ ih => exact reachable_step ih
  | start _ idle host p ih => exact reachable_start ih idle host p

private theorem reactive_step {m : Machine σ} (reactive : Reactive m.world seen [])
    (retains : Retains m.world m.step.world)
    (kept : ∀ o, seen o → (m.step.world.properties o).keys = (m.world.properties o).keys) :
    Reactive m.step.world (fun o => seen o ∨ m.Observes o) [] := by
  have nobody : m.observing? = none → (fun o => seen o ∨ m.Observes o) = seen := by
    intro nothing
    funext o
    simp [Observes, nothing]
  have somebody : ∀ {w v}, m.observing? = some (w, v) →
      (fun o => seen o ∨ m.Observes o) = fun o => seen o ∨ w.Reached [v] o := by
    intro w v observes
    funext o
    simp [Observes, observes]
  cases step_concerns m with
  | rests nothing rests =>
    rw [nobody nothing]
    exact reactive.rests retains rests.tracked kept
  | silent nothing _ written =>
    rw [nobody nothing]
    exact reactive.rests retains (tracked_write written) kept
  | @stores call _ observes objects =>
    rw [somebody observes]
    exact (reactive.replace call.root call.key call.value).observe.of_objects objects
  | @observes w v observes rests moves objects =>
    rw [somebody observes]
    have same : ∀ o, (m.step.world.properties o).keys = (w.properties o).keys := by
      intro o
      rw [properties, objects]
      exact (marks_observeAll w [v]).keys o
    have before := reactive.rests moves.retains rests.tracked fun o among =>
      (same o).symm.trans (kept o among)
    exact before.mono.observe.of_objects objects

theorem Observant.reactive {m : Machine σ} (observant : Observant m seen) :
    Reactive m.world seen [] := by
  induction observant with
  | initial host => exact ⟨fun there => (nomatch there), False.elim, fun there => (nomatch there)⟩
  | step before kept ih =>
    have sound := reachable_sound before.reachable
    exact reactive_step ih (step_turn fun _ => sound.known).retains kept
  | start _ _ _ _ ih => exact ih

/-- At every moment of such a run, so in particular whenever somebody is told of a change
and whenever nothing is in progress, an object that is held by a tracked property has
tracked properties only; and so has all that can be reached from an object that was
observed. -/
theorem observed_objects_are_reactive {m : Machine σ} (observant : Observant m seen) :
    (∀ o, ∀ slot ∈ (m.world.properties o).slots, slot.dep ≠ none → ∀ x, slot.value = .object x →
      ∀ inner ∈ (m.world.properties x).slots, inner.dep ≠ none) ∧
    ∀ o, seen o → ∀ x, m.world.Contains o x → ∀ slot ∈ (m.world.properties x).slots,
      slot.dep ≠ none := by
  have reactive := observant.reactive
  have held : ∀ {o slot x}, slot ∈ (m.world.properties o).slots → slot.dep ≠ none →
      slot.value = .object x → seen x := fun there listed leads =>
    (reactive.held there listed leads).resolve_right (by simp)
  refine ⟨fun o slot there listed x leads inner => reactive.whole (held there listed leads), ?_⟩
  intro o among x contains
  have within : seen x := by
    induction contains with
    | self => exact among
    | through _ there leads ih => exact held there (reactive.whole ih there) leads
  exact fun slot => reactive.whole within

private theorem Observant.unobserved {m : Machine σ} (observant : Observant m fun _ => False)
    (n : Nat) (nothing : ∀ i < n, (run i m).observing? = none) :
    Observant (run n m) fun _ => False := by
  induction n with
  | zero => exact observant
  | succ n ih =>
    have before := ih fun i earlier => nothing i (Nat.lt_succ_of_lt earlier)
    have same : (fun o => False ∨ (run n m).Observes o) = fun _ => False := by
      funext o
      simp [Observes, nothing n (Nat.lt_succ_self n)]
    rw [run_succ]
    exact same ▸ before.step fun _ => False.elim

private theorem Observant.along {m : Machine σ} (observant : Observant m seen) (n : Nat)
    (kept : ∀ i < n, ∀ o,
      ((run i m).step.world.properties o).keys = ((run i m).world.properties o).keys) :
    ∃ seen', Observant (run n m) seen' ∧ ∀ o, seen o → seen' o := by
  induction n with
  | zero => exact ⟨seen, observant, fun _ => id⟩
  | succ n ih =>
    obtain ⟨seen', before, among⟩ := ih fun i earlier => kept i (Nat.lt_succ_of_lt earlier)
    rw [run_succ]
    exact ⟨_, before.step fun o _ => kept n (Nat.lt_succ_self n) o, fun o seen => .inl (among o seen)⟩

private theorem keys_of_cells {w w' : World}
    (same : w'.objects.cells.map (·.keys) = w.objects.cells.map (·.keys)) (o : ObjectId) :
    (w'.properties o).keys = (w.properties o).keys := by
  have placed := congrArg (·[o.index]?) same
  simp only [Array.getElem?_map] at placed
  have keys : ∀ w : World, (w.properties o).keys =
      ((w.objects.cells[o.index]?).map (·.keys)).getD [] := by
    intro w
    rw [properties, Arena.get?]
    cases w.objects.cells[o.index]? <;> rfl
  rw [keys, keys, placed]

/-- Of three objects two hold each other. The third is observed, and the callback of its
watcher stores one of the two in it while a change of the same property is being told. -/
def assigning : Program Unit :=
  .call (.act (.newObject [("a", .null)])) fun _ =>
  .call (.act (.newObject [("x", .null)])) fun _ =>
  .call (.act (.newObject [("in", .object ⟨1⟩)])) fun _ =>
  .call (.write ⟨1⟩ "x" (.object ⟨2⟩)) fun _ =>
  .call (.act (.observe (.object ⟨0⟩))) fun _ =>
  .call (.watch ⟨0⟩ "a" fun _ => .call (.write ⟨0⟩ "a" (.object ⟨2⟩)) fun _ => .done) fun _ =>
  .call (.write ⟨0⟩ "a" (.bool true)) fun _ => .done

theorem assigned_objects_are_reactive :
    ∃ (m : Machine Unit) (seen : ObjectId → Prop), Observant m seen ∧ m.idle = true ∧
      m.failure = none ∧ seen ⟨0⟩ ∧
      [0, 1, 2].map (fun i => (m.world.properties ⟨i⟩).slots) =
        [[⟨"a", .object ⟨2⟩, some ⟨0⟩⟩], [⟨"x", .object ⟨2⟩, some ⟨2⟩⟩],
          [⟨"in", .object ⟨1⟩, some ⟨1⟩⟩]] ∧
      ∀ x, m.world.Contains ⟨0⟩ x → ∀ slot ∈ (m.world.properties x).slots, slot.dep ≠ none := by
  let begun : Machine Unit := run 4 (start { host := () } assigning)
  have early : Observant begun fun _ => False :=
    ((Observant.initial ()).start rfl () assigning).unobserved 4 (by
      have none : ∀ i < 4, (run i (start { host := () } assigning)).observing?.isNone = true := by
        decide +kernel
      exact fun i earlier => Option.isNone_iff_eq_none.mp (none i earlier))
  have observes : begun.Observes ⟨0⟩ := ⟨_, _, rfl, .given List.mem_cons_self⟩
  obtain ⟨seen, observant, among⟩ := (early.step fun _ => False.elim).along 14 (by
    have cells : ∀ i < 14, (run i begun.step).step.world.objects.cells.map (·.keys) =
        (run i begun.step).world.objects.cells.map (·.keys) := by
      decide +kernel
    exact fun i earlier => keys_of_cells (cells i earlier))
  exact ⟨_, seen, observant, by decide +kernel, by decide +kernel, among _ (.inr observes),
    by decide +kernel, (observed_objects_are_reactive observant).2 _ (among _ (.inr observes))⟩

end Machine
end DataBinding
