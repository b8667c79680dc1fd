import DataBinding.Proofs.Coherence

/-! Where properties stand, over any number of runs. A property never leaves its place among
the properties of its object, keeps its key and, once it is tracked, its dependency list.
Only values change, new properties come last, and what a call that was broken off has done
so far is no exception. -/
namespace DataBinding

/-- Every property stands in the same place later on, under the same key and with the same
dependency list if it had one. -/
def Properties.Retains (p q : Properties) : Prop :=
  ∀ (i : Nat) (slot : Slot), p.slots[i]? = some slot → ∃ later, q.slots[i]? = some later ∧
    later.key = slot.key ∧ ∀ d, slot.dep = some d → later.dep = some d

namespace Properties.Retains

theorem refl (p : Properties) : Retains p p := fun _ slot there => ⟨slot, there, rfl, fun _ => id⟩

theorem trans {p q r : Properties} (first : Retains p q) (second : Retains q r) :
    Retains p r := by
  intro i slot there
  obtain ⟨later, found, named, tracked⟩ := first i slot there
  obtain ⟨last, found', named', tracked'⟩ := second i later found
  exact ⟨last, found', named'.trans named, fun d listed => tracked' d (tracked d listed)⟩

/-- Keys are added at the end at most. -/
theorem keys {p q : Properties} (retains : Retains p q) : p.keys <+: q.keys := by
  rw [List.prefix_iff_getElem?]
  intro i inside
  have place : i < p.slots.length := by simpa [Properties.keys] using inside
  obtain ⟨later, found, named, -⟩ := retains i p.slots[i] (List.getElem?_eq_getElem place)
  simp [Properties.keys, found, named]

end Properties.Retains

namespace Properties

theorem retains_replace (p : Properties) (key : String) (value : Value) :
    p.Retains (p.replace key value) := by
  intro i slot there
  by_cases named : slot.key = key
  · exact ⟨{ slot with value := value }, by simp [getElem?_replace, there, named], rfl, fun _ => id⟩
  · exact ⟨slot, by simp [getElem?_replace, there, named], rfl, fun _ => id⟩

theorem retains_append (p : Properties) (value : Value) (absent : p.find? key = none) :
    p.Retains (p.append key value absent) := by
  intro i slot there
  obtain ⟨inside, -⟩ := List.getElem?_eq_some_iff.mp there
  exact ⟨slot, (List.getElem?_append_left inside).trans there, rfl, fun _ => id⟩

theorem retains_track (p : Properties) (next : Nat) : p.Retains (p.track next) := by
  intro i slot there
  refine ⟨slot.listedIn ⟨next + p.untrackedBefore i⟩, by simp [getElem?_track, there], rfl, ?_⟩
  intro d tracked
  rw [Slot.listedIn_of_dep _ tracked, tracked]

end Properties

namespace World

/-- Every object retains its properties. -/
def Retains (w w' : World) : Prop := ∀ o, (w.properties o).Retains (w'.properties o)

theorem retains_of_objects {w w' : World} (same : w'.objects = w.objects) : Retains w w' := by
  intro o
  rw [properties, properties, same]
  exact .refl _

theorem Retains.trans {a b c : World} (first : Retains a b) (second : Retains b c) : Retains a c :=
  fun o => (first o).trans (second o)

/-- A change to one object that retains its properties. -/
theorem retains_modifyObject (w : World) (changed : ObjectId) (f : Properties → Properties)
    (retains : (w.properties changed).Retains (f (w.properties changed))) :
    Retains w (w.modifyObject changed f) := by
  intro o
  rcases properties_modifyObject_cases w changed f o with same | ⟨rfl, same⟩
  · exact same ▸ .refl _
  · exact same ▸ retains

/-- A new object takes the place of none. -/
private theorem retains_newObject (w : World) (p : Properties) : Retains w (w.newObject p).1 := by
  intro o i slot there
  have inside : o.index < w.objects.size := by
    by_contra outside
    have none : w.objects.get? o.index = none := Array.getElem?_eq_none (Nat.le_of_not_lt outside)
    simp [properties, none] at there
  refine ⟨slot, ?_, rfl, fun _ => id⟩
  rw [← there, properties, properties, newObject, Arena.get?_push, if_neg (Nat.ne_of_lt inside)]

theorem Move.retains {w w' : World} (move : Move w w') : Retains w w' := by
  cases move with
  | object => exact retains_newObject w _
  | add value absent => exact retains_modifyObject w _ _ (Properties.retains_append _ value absent)
  | put value => exact retains_modifyObject w _ _ (Properties.retains_replace _ _ value)
  | track _ o => exact retains_modifyObject w o _ (Properties.retains_track _ _)
  | watch _ root key reaction => exact retains_of_objects (objects_watch w root key reaction)
  | dep | register | subscribe | stack | node | edit | custody => exact retains_of_objects rfl

theorem Moves.retains {w w' : World} (moves : Moves w w') : Retains w w' := by
  induction moves with
  | refl => exact retains_of_objects rfl
  | tail _ move ih => exact ih.trans move.retains

/-- No two properties have the same dependency list. -/
theorem Sound.place_unique {w : World} (sound : w.Sound) {i j : Nat} {slot slot' : Slot}
    (there : (w.properties o).slots[i]? = some slot) (tracked : slot.dep = some d)
    (there' : (w.properties o').slots[j]? = some slot') (tracked' : slot'.dep = some d) :
    o = o' ∧ i = j := by
  have found : w.slot? o slot.key = some slot := Properties.find?_eq_some_iff.mpr ⟨i, there, rfl⟩
  have found' : w.slot? o' slot'.key = some slot' :=
    Properties.find?_eq_some_iff.mpr ⟨j, there', rfl⟩
  obtain ⟨rfl, named⟩ := sound.apart found tracked found' tracked'
  have first := Properties.index?_eq_some_iff.mpr ⟨slot, there, rfl⟩
  have second := Properties.index?_eq_some_iff.mpr ⟨slot', there', rfl⟩
  rw [named] at first
  exact ⟨rfl, Option.some.inj (first.symm.trans second)⟩

end World

namespace Machine
open World

variable {σ : Type}

/-- One step retains all properties. -/
theorem Turn.retains {m m' : Machine σ} (turn : Turn m m') : m.world.Retains m'.world := by
  cases turn with
  | still => exact retains_of_objects rfl
  | calm _ _ _ moves => exact moves.retains
  | @tell top added below s =>
    exact retains_of_objects (update_same { m with frames := added ++ below } s).1
  | notify => exact retains_of_objects rfl
  | @store _ _ _ o key _ _ value =>
    have stored := retains_modifyObject m.world o (·.replace key value)
      (Properties.retains_replace _ key value)
    exact stored.trans (moves_observe _ value).retains
  | broken moves => exact moves.retains

/-- Any number of steps and runs does. -/
theorem Leads.retains {m m' : Machine σ} (led : Leads P m m') (sound : m.Sound) :
    m'.Sound ∧ m.world.Retains m'.world := by
  induction led with
  | refl => exact ⟨sound, retains_of_objects rfl⟩
  | step _ _ ih =>
    obtain ⟨sound, retains⟩ := ih
    exact ⟨step_sound sound, retains.trans (step_turn fun _ => sound.known).retains⟩
  | start _ _ host p _ ih => exact ⟨start_sound ih.1 host p, ih.2⟩

/-- In every machine that can come about the index of each object leads from every key to
the one property that has it, and no two properties share a dependency list. However the
machine got there from an earlier one, keys were added at the end only, and what was tracked
is tracked with the same list, in the same place and under the same key. -/
theorem properties_keep_place_and_list {m m' : Machine σ} (reachable : m.Reachable)
    (led : Leads (fun _ => True) m m') :
    (∀ o, (m'.world.properties o).keys.Nodup ∧ ∀ key i,
      (m'.world.properties o).index.lookup key = some i ↔
        (m'.world.properties o).keys[i]? = some key) ∧
    (∀ o, (m.world.properties o).keys <+: (m'.world.properties o).keys) ∧
    (∀ o (i : Nat) slot d, (m.world.properties o).slots[i]? = some slot → slot.dep = some d →
      ∃ later, (m'.world.properties o).slots[i]? = some later ∧ later.key = slot.key ∧
        later.dep = some d) ∧
    ∀ o (i : Nat) slot o' (j : Nat) slot' d, (m'.world.properties o).slots[i]? = some slot →
      slot.dep = some d → (m'.world.properties o').slots[j]? = some slot' →
        slot'.dep = some d → o = o' ∧ i = j := by
  obtain ⟨sound, retains⟩ := led.retains (reachable_sound reachable)
  refine ⟨fun o => ⟨Properties.nodup_keys _, (m'.world.properties o).indexed⟩,
    fun o => (retains o).keys, ?_, ?_⟩
  · intro o i slot d there tracked
    obtain ⟨later, found, named, still⟩ := retains o i slot there
    exact ⟨later, found, named, still d tracked⟩
  · intro o i slot o' j slot' d there tracked there' tracked'
    exact sound.world.place_unique there tracked there' tracked'

/-- An object is made from entries that repeat a key; a callback gives it another key while
a change is being told, and breaks everything off. -/
def cutShort : Program Unit :=
  .call (.act (.newObject [("a", .null), ("b", .null), ("a", .bool false)])) fun _ =>
  .call (.act (.observe (.object ⟨0⟩))) fun _ =>
  .call (.watch ⟨0⟩ "a" fun _ =>
    .call (.write ⟨0⟩ "c" .null) fun _ => .call (.panic "stop") fun _ => .done) fun _ =>
  .call (.write ⟨0⟩ "a" (.bool true)) fun _ => .done

/-- The machine before the watcher is made. -/
def cutShortMachine : Machine Unit := run 2 (start { host := () } cutShort)

theorem cut_short_properties_keep_place_and_list :
    ∃ m m' : Machine Unit, m.Reachable ∧ Leads (fun _ => True) m m' ∧
      m'.failure = some (.panic "stop") ∧
      (m'.world.properties ⟨0⟩).slots =
        [⟨"a", .bool true, some ⟨0⟩⟩, ⟨"b", .null, some ⟨1⟩⟩, ⟨"c", .null, none⟩] ∧
      (∀ o, (m'.world.properties o).keys.Nodup ∧ ∀ key i,
        (m'.world.properties o).index.lookup key = some i ↔
          (m'.world.properties o).keys[i]? = some key) ∧
      (∀ o, (m.world.properties o).keys <+: (m'.world.properties o).keys) ∧
      (∀ o (i : Nat) slot d, (m.world.properties o).slots[i]? = some slot → slot.dep = some d →
        ∃ later, (m'.world.properties o).slots[i]? = some later ∧ later.key = slot.key ∧
          later.dep = some d) ∧
      ∀ o (i : Nat) slot o' (j : Nat) slot' d,
        (m'.world.properties o).slots[i]? = some slot → slot.dep = some d →
          (m'.world.properties o').slots[j]? = some slot' → slot'.dep = some d →
            o = o' ∧ i = j := by
  have reachable : cutShortMachine.Reachable :=
    reachable_run 2 (reachable_start (reachable_initial ()) rfl () cutShort)
  have led := leads_run cutShortMachine 5
  exact ⟨cutShortMachine, run 5 cutShortMachine, reachable, led, by decide +kernel,
    by decide +kernel, properties_keep_place_and_list reachable led⟩

end Machine
end DataBinding
