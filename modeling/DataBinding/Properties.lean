import DataBinding.Value

/-!
The properties of an object, in the order in which their keys were first written, with an index that
leads from a key to its property. A property is tracked once it has a dependency list of its own; from
then on reads of it can be recorded there.
-/
namespace DataBinding

/-- One property. -/
structure Slot where
  key : String
  value : Value
  /-- The dependency list, once the property is tracked. -/
  dep : Option DepId
  deriving DecidableEq, Inhabited

/-- An empty index fits no properties. -/
theorem lookup_nil_iff (key : String) (i : Nat) :
    ([] : List (String × Nat)).lookup key = some i ↔
      (([] : List Slot).map (·.key))[i]? = some key := by
  simp

/-- The properties of one object. -/
structure Properties where
  slots : List Slot := []
  /-- The place of the property with each key. -/
  index : List (String × Nat) := []
  /-- The index has the place of every property, and nothing else. -/
  indexed : ∀ key i, index.lookup key = some i ↔ (slots.map (·.key))[i]? = some key := by
    exact lookup_nil_iff
  deriving DecidableEq

namespace Properties

instance : Inhabited Properties := ⟨{}⟩

/-- The place of the property with a key. -/
def index? (p : Properties) (key : String) : Option Nat := p.index.lookup key

/-- The property with a key. -/
def find? (p : Properties) (key : String) : Option Slot := (p.index? key).bind (p.slots[·]?)

def contains (p : Properties) (key : String) : Bool := (p.index? key).isSome

/-- The keys in the order in which they were first written. -/
def keys (p : Properties) : List String := p.slots.map (·.key)

def size (p : Properties) : Nat := p.slots.length

/-- The dependency list of a property, if it exists and is tracked. -/
def dep? (p : Properties) (key : String) : Option DepId := (p.find? key).bind (·.dep)

/-- The number of tracked properties. -/
def trackedCount (p : Properties) : Nat := p.slots.countP (·.dep.isSome)

/-- The number of properties that are not tracked. -/
def untrackedCount (p : Properties) : Nat := p.slots.countP (·.dep.isNone)

/-- Stores a value in the property at a place. -/
def storeAt (slots : List Slot) (i : Nat) (value : Value) : List Slot :=
  slots.modify i fun slot => { slot with value := value }

@[simp] theorem map_key_storeAt (slots : List Slot) (i : Nat) (value : Value) :
    (storeAt slots i value).map (·.key) = slots.map (·.key) := by
  apply List.ext_getElem?
  intro j
  simp only [storeAt, List.getElem?_map, List.getElem?_modify]
  cases slots[j]? with
  | none => rfl
  | some slot => by_cases here : i = j <;> simp [here]

/-- Stores a value in the property with a key; the property keeps its place and its dependency
list. -/
def replace (p : Properties) (key : String) (value : Value) : Properties :=
  match p.index? key with
  | none => p
  | some i => { p with slots := storeAt p.slots i value, indexed := by simpa using p.indexed }

/-- An index that gets the next place for a new key. -/
theorem indexed_append {keys : List String} {index : List (String × Nat)}
    (indexed : ∀ key i, index.lookup key = some i ↔ keys[i]? = some key)
    (absent : index.lookup added = none) (key : String) (i : Nat) :
    ((added, keys.length) :: index).lookup key = some i ↔ (keys ++ [added])[i]? = some key := by
  have unplaced : keys[i]? ≠ some added := by
    rw [Ne, ← indexed, absent]
    exact nofun
  rw [List.lookup_cons, List.getElem?_append]
  by_cases named : key = added
  · subst named
    grind
  · have other := indexed key i
    grind

theorem index?_eq_some_iff {p : Properties} {i : Nat} :
    p.index? key = some i ↔ ∃ slot, p.slots[i]? = some slot ∧ slot.key = key := by
  rw [index?, p.indexed, List.getElem?_map, Option.map_eq_some_iff]

/-- The index has a place for each property that is found. -/
theorem index?_eq_none_iff {p : Properties} : p.index? key = none ↔ p.find? key = none := by
  cases placed : p.index? key with
  | none => simp [find?, placed]
  | some i =>
    obtain ⟨slot, there, -⟩ := index?_eq_some_iff.mp placed
    simp [find?, placed, there]

/-- Adds an untracked property at the end; there may be none with the key. -/
def append (p : Properties) (key : String) (value : Value) (absent : p.find? key = none) :
    Properties where
  slots := p.slots ++ [⟨key, value, none⟩]
  index := (key, p.slots.length) :: p.index
  indexed := by simpa using indexed_append p.indexed (index?_eq_none_iff.mpr absent)

@[simp] theorem slots_append (p : Properties) (key : String) (value : Value)
    (absent : p.find? key = none) :
    (p.append key value absent).slots = p.slots ++ [⟨key, value, none⟩] := rfl

/-- Stores a value under a key, at the end if the key is new. -/
def assign (p : Properties) (key : String) (value : Value) : Properties :=
  match absent : p.find? key with
  | none => p.append key value absent
  | some _ => p.replace key value

/-- Untracked properties with the given entries. A repeated key keeps its first place and its last
value. -/
def ofEntries (entries : List (String × Value)) : Properties :=
  entries.foldl (fun p entry => p.assign entry.1 entry.2) {}

/-- The values of the properties that are not tracked, in order. -/
def untrackedValues (p : Properties) : List Value :=
  (p.slots.filter (·.dep.isNone)).map (·.value)

/-- Gives each untracked slot the next dependency list, counted from `next`. -/
def trackSlots (next : Nat) : List Slot → List Slot
  | [] => []
  | slot :: rest =>
    match slot.dep with
    | some _ => slot :: trackSlots next rest
    | none => { slot with dep := some ⟨next⟩ } :: trackSlots (next + 1) rest

@[simp] theorem map_key_trackSlots (next : Nat) (slots : List Slot) :
    (trackSlots next slots).map (·.key) = slots.map (·.key) := by
  induction slots generalizing next with
  | nil => rfl
  | cons slot rest ih => cases kept : slot.dep <;> simp [trackSlots, kept, ih]

/-- Tracks every property; those that were not yet get consecutive dependency lists from `next`. -/
def track (next : Nat) (p : Properties) : Properties :=
  { p with slots := trackSlots next p.slots, indexed := by simpa using p.indexed }

theorem untrackedCount_eq_length (p : Properties) :
    p.untrackedCount = p.untrackedValues.length := by
  simp [untrackedCount, untrackedValues, List.countP_eq_length_filter]

/-- After tracking no property is left out. -/
@[simp] theorem untrackedCount_track (next : Nat) (p : Properties) :
    (p.track next).untrackedCount = 0 := by
  simp only [untrackedCount, track]
  generalize p.slots = slots
  induction slots generalizing next with
  | nil => rfl
  | cons slot rest ih =>
    cases h : slot.dep with
    | none => simpa [trackSlots, h] using ih (next + 1)
    | some d => simpa [trackSlots, h] using ih next

end Properties
end DataBinding
