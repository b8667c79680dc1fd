import DataBinding.World.Observation

/-! Properties under change. A tracked property keeps its value and its
dependency list until a value is stored in that very property: storing elsewhere,
adding properties and tracking further ones pass it by. -/
namespace DataBinding

/-- The property once it is tracked: with the given list, unless it has one already. -/
def Slot.listedIn (slot : Slot) (d : DepId) : Slot := { slot with dep := some (slot.dep.getD d) }

theorem Slot.listedIn_of_dep {slot : Slot} (d : DepId) (tracked : slot.dep = some e) :
    slot.listedIn d = slot := by
  rw [listedIn, tracked, Option.getD_some, ← tracked]

theorem Slot.listedIn_of_plain {slot : Slot} (d : DepId) (plain : slot.dep = none) :
    slot.listedIn d = { slot with dep := some d } := by
  rw [listedIn, plain, Option.getD_none]

namespace Properties

/-- No key occurs twice. -/
theorem nodup_keys (p : Properties) : p.keys.Nodup := by
  rw [List.Nodup, List.pairwise_iff_getElem]
  intro i j first second before same
  have earlier : p.index? p.keys[j] = some i :=
    (p.indexed _ i).mpr (same ▸ List.getElem?_eq_getElem first)
  have later : p.index? p.keys[j] = some j :=
    (p.indexed _ j).mpr (List.getElem?_eq_getElem second)
  exact Nat.ne_of_lt before (Option.some.inj (earlier.symm.trans later))

/-- Where the keys are the same, the same places are taken. -/
theorem getElem?_of_keys {p q : Properties} (same : q.keys = p.keys) {i : Nat}
    (there : q.slots[i]? = some slot) : ∃ before, p.slots[i]? = some before := by
  have placed := congrArg (·[i]?) same
  simp only [keys, List.getElem?_map, there, Option.map_some] at placed
  obtain ⟨before, was, -⟩ := Option.map_eq_some_iff.mp placed.symm
  exact ⟨before, was⟩

theorem find?_eq_some_iff {p : Properties} {slot : Slot} :
    p.find? key = some slot ↔ ∃ i : Nat, p.slots[i]? = some slot ∧ slot.key = key := by
  simp only [find?, Option.bind_eq_some_iff, index?_eq_some_iff]
  constructor
  · rintro ⟨i, ⟨first, there, named⟩, found⟩
    obtain rfl := Option.some.inj (there.symm.trans found)
    exact ⟨i, there, named⟩
  · rintro ⟨i, found, named⟩
    exact ⟨i, ⟨slot, found, named⟩, found⟩

/-- The index finds what a search finds. -/
theorem find?_eq (p : Properties) (key : String) :
    p.find? key = p.slots.find? (·.key == key) := by
  cases searched : p.slots.find? (·.key == key) with
  | none =>
    rw [Option.eq_none_iff_forall_ne_some]
    intro slot found
    obtain ⟨i, there, named⟩ := find?_eq_some_iff.mp found
    have other := List.find?_eq_none.mp searched slot (List.mem_of_getElem? there)
    exact other (by simpa using named)
  | some slot =>
    obtain ⟨i, there⟩ := List.mem_iff_getElem?.mp (List.mem_of_find?_eq_some searched)
    exact find?_eq_some_iff.mpr ⟨i, there, by simpa using List.find?_some searched⟩

theorem find?_key {p : Properties} (found : p.find? key = some slot) : slot.key = key := by
  obtain ⟨-, -, named⟩ := find?_eq_some_iff.mp found
  exact named

/-- A new property is found only where no older one has its key. -/
theorem find?_append (p : Properties) (key : String) (value : Value) (absent : p.find? added = none) :
    (p.append added value absent).find? key =
      (p.find? key).or (if added = key then some ⟨added, value, none⟩ else none) := by
  rw [find?_eq, slots_append, List.find?_append, ← find?_eq]
  by_cases same : added = key <;> simp [same]

/-- Storing reaches the place of the property with the key. -/
theorem getElem?_replace (p : Properties) (stored : String) (value : Value) (i : Nat) :
    (p.replace stored value).slots[i]? =
      (p.slots[i]?).map fun slot =>
        if slot.key = stored then { slot with value := value } else slot := by
  cases there : p.slots[i]? with
  | none =>
    unfold replace
    split <;> simp [storeAt, List.getElem?_modify, there]
  | some slot =>
    have here : p.index? slot.key = some i := index?_eq_some_iff.mpr ⟨slot, there, rfl⟩
    unfold replace
    split
    · rename_i absent
      have other : slot.key ≠ stored := by
        rintro rfl
        cases here.symm.trans absent
      simp [there, other]
    · rename_i j placed
      obtain ⟨target, found, named⟩ := index?_eq_some_iff.mp placed
      by_cases same : j = i
      · subst same
        obtain rfl := Option.some.inj (there.symm.trans found)
        simp [storeAt, there, named]
      · have other : slot.key ≠ stored := by
          rintro rfl
          exact same (Option.some.inj (placed.symm.trans here))
        simp [storeAt, there, same, other]

/-- Storing reaches the property with the key and keeps its dependency list. -/
theorem find?_replace (p : Properties) (key stored : String) (value : Value) :
    (p.replace stored value).find? key =
      (p.find? key).map fun slot => if key = stored then { slot with value := value } else slot := by
  have placed : (p.replace stored value).index? key = p.index? key := by
    unfold replace
    split <;> rfl
  rw [find?, find?, placed]
  cases there : p.index? key with
  | none => rfl
  | some i =>
    obtain ⟨slot, found, named⟩ := index?_eq_some_iff.mp there
    simp [getElem?_replace, found, named]

theorem keys_replace (p : Properties) (key : String) (value : Value) :
    (p.replace key value).keys = p.keys := by
  unfold replace
  split
  · rfl
  · exact map_key_storeAt _ _ _

/-- The number of properties before a place that are not tracked. -/
def untrackedBefore (p : Properties) (i : Nat) : Nat := (p.slots.take i).countP (·.dep.isNone)

private theorem getElem?_trackSlots (next : Nat) (slots : List Slot) (i : Nat) :
    (trackSlots next slots)[i]? =
      (slots[i]?).map (·.listedIn ⟨next + (slots.take i).countP (·.dep.isNone)⟩) := by
  induction slots generalizing next i with
  | nil => rfl
  | cons slot rest ih =>
    cases kept : slot.dep with
    | none =>
      cases i with
      | zero => simp [trackSlots, kept, Slot.listedIn]
      | succ i =>
        simp only [trackSlots, kept, List.getElem?_cons_succ, ih, List.take_succ_cons,
          List.countP_cons, Option.isNone_none, if_true]
        rw [Nat.add_assoc, Nat.add_comm 1]
    | some d => cases i <;> simp [trackSlots, kept, ih, Slot.listedIn_of_dep _ kept]

/-- Tracking gives a dependency list to every property that has none, in order. -/
theorem getElem?_track (next : Nat) (p : Properties) (i : Nat) :
    (p.track next).slots[i]? =
      (p.slots[i]?).map (·.listedIn ⟨next + p.untrackedBefore i⟩) :=
  getElem?_trackSlots next p.slots i

theorem untrackedBefore_lt {p : Properties} (there : p.slots[i]? = some slot)
    (plain : slot.dep = none) (before : i < j) : p.untrackedBefore i < p.untrackedBefore j := by
  have upto : p.untrackedBefore (i + 1) = p.untrackedBefore i + 1 := by
    simp [untrackedBefore, List.take_add_one, there, plain]
  have grown : p.untrackedBefore (i + 1) ≤ p.untrackedBefore j :=
    (List.take_sublist_take_left before).countP_le
  exact Nat.lt_of_lt_of_le (upto ▸ Nat.lt_succ_self _) grown

/-- Each property that is not tracked has a number of its own. -/
theorem untrackedBefore_inj {p : Properties} (there : p.slots[i]? = some slot)
    (plain : slot.dep = none) (there' : p.slots[j]? = some slot') (plain' : slot'.dep = none)
    (same : p.untrackedBefore i = p.untrackedBefore j) : i = j := by
  rcases Nat.lt_trichotomy i j with before | eq | after
  · exact absurd same (Nat.ne_of_lt (untrackedBefore_lt there plain before))
  · exact eq
  · exact absurd same.symm (Nat.ne_of_lt (untrackedBefore_lt there' plain' after))

theorem untrackedBefore_lt_count {p : Properties} (there : p.slots[i]? = some slot)
    (plain : slot.dep = none) : p.untrackedBefore i < p.untrackedCount := by
  obtain ⟨inside, -⟩ := List.getElem?_eq_some_iff.mp there
  have last := untrackedBefore_lt there plain inside
  rwa [untrackedBefore, untrackedBefore, List.take_length] at last

/-- Tracking adds no property. -/
theorem find?_track_of_none {p : Properties} (next : Nat) (absent : p.find? key = none) :
    (p.track next).find? key = none := by
  have placed : (p.track next).index? key = p.index? key := rfl
  rw [← index?_eq_none_iff, placed, index?_eq_none_iff]
  exact absent

/-- A property that has a dependency list is passed over by tracking. -/
theorem find?_track_of_dep {p : Properties} (next : Nat) (found : p.find? key = some slot)
    (tracked : slot.dep = some d) : (p.track next).find? key = some slot := by
  obtain ⟨i, there, named⟩ := find?_eq_some_iff.mp found
  exact find?_eq_some_iff.mpr ⟨i, by simp [getElem?_track, there, Slot.listedIn_of_dep _ tracked],
    named⟩

private theorem find?_track_place {p : Properties} (next : Nat) (found : p.find? key = some slot)
    (plain : slot.dep = none) : ∃ i : Nat, p.slots[i]? = some slot ∧
      (p.track next).find? key = some { slot with dep := some ⟨next + p.untrackedBefore i⟩ } := by
  obtain ⟨i, there, named⟩ := find?_eq_some_iff.mp found
  exact ⟨i, there, find?_eq_some_iff.mpr
    ⟨i, by simp [getElem?_track, there, Slot.listedIn_of_plain _ plain], named⟩⟩

/-- A property that is tracked afresh gets one of the new dependency lists. -/
theorem find?_track_of_plain {p : Properties} (next : Nat) (found : p.find? key = some slot)
    (plain : slot.dep = none) : ∃ d, (p.track next).find? key = some { slot with dep := some d } ∧
      next ≤ d.index ∧ d.index < next + p.untrackedCount := by
  obtain ⟨i, there, after⟩ := find?_track_place next found plain
  have inside := untrackedBefore_lt_count there plain
  exact ⟨_, after, Nat.le_add_right _ _, Nat.add_lt_add_left inside next⟩

/-- Properties that are tracked afresh get different dependency lists. -/
theorem find?_track_apart {p : Properties} (next : Nat)
    (found : p.find? key = some slot) (plain : slot.dep = none)
    (found' : p.find? key' = some slot') (plain' : slot'.dep = none)
    (after : (p.track next).find? key = some { slot with dep := some d })
    (after' : (p.track next).find? key' = some { slot' with dep := some d }) : key = key' := by
  obtain ⟨i, there, first⟩ := find?_track_place next found plain
  obtain ⟨j, there', second⟩ := find?_track_place next found' plain'
  rw [after] at first
  rw [after'] at second
  simp only [Option.some.injEq, Slot.mk.injEq, true_and] at first second
  have same : p.untrackedBefore i = p.untrackedBefore j := by
    simpa using first.symm.trans second
  obtain rfl := untrackedBefore_inj there plain there' plain' same
  obtain rfl := Option.some.inj (there.symm.trans there')
  exact (find?_key found).symm.trans (find?_key found')

end Properties

namespace World

/-- The property of an object with a key. -/
def slot? (w : World) (o : ObjectId) (key : String) : Option Slot := (w.properties o).find? key

/-- Whether a property exists and a value is not identical to its own. -/
def changes (w : World) (o : ObjectId) (key : String) (v : Value) : Bool :=
  match w.slot? o key with
  | some slot => !slot.value.same v
  | none => false

theorem peek_eq (w : World) (o : ObjectId) (key : String) :
    w.peek o key = ((w.slot? o key).map (·.value)).getD .undefined := rfl

theorem peek_of_slot {w : World} (found : w.slot? o key = some slot) :
    w.peek o key = slot.value := by
  rw [peek_eq, found]
  rfl

/-- Only existing objects have properties. -/
theorem object_of_slot {w : World} (found : w.slot? o key = some slot) :
    w.objects.get? o.index = some (w.properties o) := by
  unfold slot? properties at found
  cases existing : w.objects.get? o.index with
  | none =>
    rw [existing] at found
    cases found
  | some p => simp [properties, existing]

theorem properties_modifyObject_ne (w : World) (f : Properties → Properties)
    (other : o ≠ changed) : (w.modifyObject changed f).properties o = w.properties o := by
  have apart : changed.index ≠ o.index := fun same => other (by cases o; cases changed; simp_all)
  simp [properties, modifyObject, Arena.get?_modify, apart]

theorem properties_modifyObject_self (w : World) (f : Properties → Properties)
    (existing : w.objects.get? o.index = some p) :
    (w.modifyObject o f).properties o = f p := by
  simp [properties, modifyObject, Arena.get?_modify, existing]

/-- Every object is left as it is, except that the one in question has the change applied. -/
theorem properties_modifyObject_cases (w : World) (changed : ObjectId)
    (f : Properties → Properties) (o : ObjectId) :
    (w.modifyObject changed f).properties o = w.properties o ∨
      o = changed ∧ (w.modifyObject changed f).properties o = f (w.properties o) := by
  by_cases same : o = changed
  · subst same
    cases existing : w.objects.get? o.index with
    | none =>
      left
      simp [properties, modifyObject, Arena.get?_modify, existing]
    | some p =>
      right
      have held : w.properties o = p := by simp [properties, existing]
      exact ⟨rfl, held ▸ properties_modifyObject_self w f existing⟩
  · exact .inl (properties_modifyObject_ne w f same)

/-- Adding a property to an object changes no other one. -/
theorem properties_addProperty_cases {w : World} {changed : ObjectId} (value : Value)
    (absent : (w.properties changed).find? key = none) (o : ObjectId) :
    (w.addProperty changed key value absent).properties o = w.properties o ∨
      o = changed ∧ (w.addProperty changed key value absent).properties o =
        (w.properties changed).append key value absent :=
  properties_modifyObject_cases w changed _ o

/-- Tracking an object changes no other one. -/
theorem properties_trackObject (w : World) (observed o : ObjectId) :
    (w.trackObject observed).1.properties o =
      if o = observed then (w.properties o).track w.deps.size else w.properties o := by
  have changed : (w.trackObject observed).1.properties o =
      (w.modifyObject observed (·.track w.deps.size)).properties o := rfl
  rw [changed]
  by_cases same : o = observed
  · subst same
    rw [if_pos rfl]
    cases existing : w.objects.get? o.index with
    | none => simp [properties, modifyObject, Arena.get?_modify, existing, Properties.track,
        Properties.trackSlots]
    | some p =>
      rw [properties_modifyObject_self w _ existing, properties, existing]
      rfl
  · rw [if_neg same, properties_modifyObject_ne w _ same]

/-- A change to an object that keeps a property keeps it in the world. -/
theorem slot?_modifyObject {w : World} (f : Properties → Properties)
    (found : w.slot? o key = some slot)
    (kept : o = changed → (f (w.properties o)).find? key = some slot) :
    (w.modifyObject changed f).slot? o key = some slot := by
  by_cases same : o = changed
  · subst same
    rw [slot?, properties_modifyObject_self w f (object_of_slot found)]
    exact kept rfl
  · rw [slot?, properties_modifyObject_ne w f same]
    exact found

/-- Storing puts the value into the property. -/
theorem slot?_replace_self {w : World} (value : Value) (found : w.slot? o key = some slot) :
    (w.modifyObject o (·.replace key value)).slot? o key =
      some { slot with value := value } := by
  have stored : (w.properties o).find? key = some slot := found
  rw [slot?, properties_modifyObject_self w _ (object_of_slot found), Properties.find?_replace,
    stored]
  simp

theorem slot?_replace_other {w : World} (value : Value) (found : w.slot? o key = some slot)
    (other : ¬(o = changed ∧ key = stored)) :
    (w.modifyObject changed (·.replace stored value)).slot? o key = some slot := by
  refine slot?_modifyObject _ found fun same => ?_
  have present : (w.properties o).find? key = some slot := found
  have apart : key ≠ stored := fun named => other ⟨same, named⟩
  simp [Properties.find?_replace, present, apart]

theorem slot?_addProperty {w : World} (value : Value)
    (absent : (w.properties changed).find? added = none)
    (found : w.slot? o key = some slot) :
    (w.addProperty changed added value absent).slot? o key = some slot := by
  refine slot?_modifyObject _ found fun same => ?_
  subst same
  have present : (w.properties o).find? key = some slot := found
  simp [Properties.find?_append, present]

/-- A write under a new key adds a property. -/
theorem write_of_absent {w : World} (absent : (w.properties o).find? key = none) (value : Value) :
    w.write o key value = (w.addProperty o key value absent, none) := by
  unfold write
  split
  · rfl
  · rename_i found
    cases absent.symm.trans found

/-- Any other write is decided by the property that is there. -/
theorem write_of_found {w : World} (found : w.slot? o key = some slot) (value : Value) :
    w.write o key value = match slot.dep with
      | none => (w.modifyObject o (·.replace key value), none)
      | some d =>
        if slot.value.same value then (w, none)
        else ((w.modifyObject o (·.replace key value)).observe value, some d) := by
  unfold write
  split
  · rename_i absent
    cases absent.symm.trans found
  · rename_i other present
    obtain rfl := Option.some.inj (found.symm.trans present)
    rfl

/-- New objects leave the properties of the others alone. -/
theorem slot?_newObject {w : World} (p : Properties) (found : w.slot? o key = some slot) :
    (w.newObject p).1.slot? o key = some slot := by
  have existing := object_of_slot found
  have apart : o.index ≠ w.objects.size := by
    intro last
    rw [last] at existing
    simp [Arena.get?, Arena.size] at existing
  rw [slot?, properties, newObject]
  simp only [Arena.get?_push, if_neg apart, existing, Option.getD_some]
  exact found

/-- Tracking an object passes over the properties that are tracked already. -/
theorem slot?_trackObject {w : World} (found : w.slot? o key = some slot)
    (tracked : slot.dep = some d) : (w.trackObject observed).1.slot? o key = some slot :=
  slot?_modifyObject (w := w) (·.track w.deps.size) found fun _ =>
    Properties.find?_track_of_dep _ found tracked

end World
end DataBinding
