import DataBinding.Proofs.Places

/-! What observing a value does. The walk comes to exactly those objects that can be reached
through properties that were not tracked before it began, although it tracks properties, and
so closes ways to itself, as it goes; what it tracks gets new, empty lists, and all else is
left alone. -/
namespace DataBinding
namespace World

/-- The objects to which the walk from the pending values comes: those values, and what is
held by properties that are not tracked. -/
inductive Reached (w : World) (pending : List Value) : ObjectId → Prop where
  | given (listed : .object o ∈ pending) : Reached w pending o
  | through (reached : Reached w pending o) (there : slot ∈ (w.properties o).slots)
      (plain : slot.dep = none) (leads : slot.value = .object o') : Reached w pending o'

theorem Reached.mono {w : World} (among : ∀ v ∈ pending, v ∈ more) (reached : w.Reached pending o) :
    w.Reached more o := by
  induction reached with
  | given listed => exact .given (among _ listed)
  | through _ there plain leads ih => exact ih.through there plain leads

section Track

theorem mem_values_trackObject {w : World} {v : Value} :
    v ∈ (w.trackObject o).2 ↔ ∃ slot ∈ (w.properties o).slots, slot.dep = none ∧ slot.value = v := by
  simp [trackObject, Properties.untrackedValues, and_assoc]

/-- Once an object is tracked, the walk does not go on from it. -/
theorem tracked_trackObject {w : World} (there : slot ∈ ((w.trackObject o).1.properties o).slots) :
    slot.dep ≠ none := by
  obtain ⟨i, found⟩ := List.mem_iff_getElem?.mp there
  rw [properties_trackObject, if_pos rfl, Properties.getElem?_track] at found
  obtain ⟨before, -, rfl⟩ := Option.map_eq_some_iff.mp found
  simp [Slot.listedIn]

/-- Tracking the first object and going on with what it held leads to the same objects. -/
theorem reached_cons (w : World) (o : ObjectId) (rest : List Value) (x : ObjectId) :
    w.Reached (.object o :: rest) x ↔
      x = o ∨ (w.trackObject o).1.Reached ((w.trackObject o).2 ++ rest) x := by
  constructor
  · intro reached
    induction reached with
    | given listed =>
      rcases List.mem_cons.mp listed with same | later
      · exact .inl (Value.object.inj same)
      · exact .inr (.given (List.mem_append_right _ later))
    | @through y slot z _ there plain leads ih =>
      right
      rcases ih with rfl | reached
      · exact .given (List.mem_append_left _ (mem_values_trackObject.mpr ⟨slot, there, plain, leads⟩))
      · by_cases same : y = o
        · subst same
          exact .given
            (List.mem_append_left _ (mem_values_trackObject.mpr ⟨slot, there, plain, leads⟩))
        · refine reached.through ?_ plain leads
          rw [properties_trackObject, if_neg same]
          exact there
  · rintro (rfl | reached)
    · exact .given List.mem_cons_self
    · induction reached with
      | given listed =>
        rcases List.mem_append.mp listed with held | later
        · obtain ⟨slot, there, plain, leads⟩ := mem_values_trackObject.mp held
          exact (Reached.given List.mem_cons_self).through there plain leads
        · exact .given (List.mem_cons_of_mem _ later)
      | @through y slot z _ there plain leads ih =>
        by_cases same : y = o
        · subst same
          exact absurd plain (tracked_trackObject there)
        · rw [properties_trackObject, if_neg same] at there
          exact ih.through there plain leads

theorem reached_cons_plain {w : World} {v : Value} (plain : ∀ o, v ≠ .object o) (rest : List Value)
    (x : ObjectId) : w.Reached (v :: rest) x ↔ w.Reached rest x := by
  constructor
  · intro reached
    induction reached with
    | given listed =>
      exact .given ((List.mem_cons.mp listed).resolve_left fun same => plain _ same.symm)
    | through _ there plain leads ih => exact ih.through there plain leads
  · exact Reached.mono fun _ listed => List.mem_cons_of_mem _ listed

end Track

/-- The property at a place has become tracked, with this dependency list. -/
def Gains (w w' : World) (o : ObjectId) (i : Nat) (d : DepId) : Prop :=
  ∃ slot : Slot, (w.properties o).slots[i]? = some slot ∧ slot.dep = none ∧
    (w'.properties o).slots[i]? = some { slot with dep := some d }

/-- The properties of certain objects have become tracked, each that was not with a list of
its own that is new. -/
structure Marks (w : World) (seen : ObjectId → Prop) (w' : World) : Prop where
  keys (o : ObjectId) : (w'.properties o).keys = (w.properties o).keys
  kept {i : Nat} : (w.properties o).slots[i]? = some slot → slot.dep ≠ none ∨ ¬seen o →
    (w'.properties o).slots[i]? = some slot
  gains {i : Nat} : seen o → (w.properties o).slots[i]? = some slot → slot.dep = none →
    ∃ d, Gains w w' o i d ∧ w.deps.size ≤ d.index ∧ d.index < w'.deps.size
  apart {i j : Nat} : Gains w w' o i d → Gains w w' o' j d → o = o' ∧ i = j
  size : w.deps.size ≤ w'.deps.size

/-- A place gains one list only. -/
theorem Gains.unique {w w' : World} {i : Nat} (gains : Gains w w' o i d)
    (again : Gains w w' o i e) : d = e := by
  obtain ⟨slot, -, -, after⟩ := gains
  obtain ⟨slot', -, -, after'⟩ := again
  rw [after] at after'
  exact Option.some.inj (congrArg Slot.dep (Option.some.inj after'))

namespace Marks

theorem refl (w : World) : Marks w (fun _ => False) w where
  keys _ := rfl
  kept there _ := there
  gains seen := seen.elim
  apart := by
    rintro o d o' i j ⟨slot, before, plain, after⟩ -
    rw [before] at after
    rw [Option.some.inj after] at plain
    cases plain
  size := Nat.le_refl _

theorem congr {w w' : World} (marks : Marks w seen w') (same : ∀ o, seen' o ↔ seen o) :
    Marks w seen' w' := by
  obtain rfl : seen' = seen := funext fun o => propext (same o)
  exact marks

/-- A property is as it was, or it has become tracked. -/
theorem origin {w w' : World} (marks : Marks w seen w') {i : Nat}
    (there : (w'.properties o).slots[i]? = some slot) :
    (w.properties o).slots[i]? = some slot ∧ (slot.dep ≠ none ∨ ¬seen o) ∨
    seen o ∧ ∃ before d, (w.properties o).slots[i]? = some before ∧ before.dep = none ∧
      slot = { before with dep := some d } := by
  obtain ⟨before, was⟩ := Properties.getElem?_of_keys (marks.keys o) there
  by_cases gained : before.dep = none ∧ seen o
  · obtain ⟨d, ⟨before', was', plain, after⟩, -⟩ := marks.gains gained.2 was gained.1
    exact .inr ⟨gained.2, before', d, was', plain, Option.some.inj (there.symm.trans after)⟩
  · have unmarked : before.dep ≠ none ∨ ¬seen o := by tauto
    obtain rfl := Option.some.inj (there.symm.trans (marks.kept was unmarked))
    exact .inl ⟨was, unmarked⟩

/-- What is gained in two walks, one after the other, is gained in the first one, and has
one of its lists, or in the second one. -/
private theorem gains_cases {a b c : World} {i : Nat} (first : Marks a seen b)
    (second : Marks b seen' c) (gains : Gains a c o i d) :
    Gains a b o i d ∧ d.index < b.deps.size ∨ Gains b c o i d ∧ b.deps.size ≤ d.index := by
  obtain ⟨slot, there, plain, after⟩ := gains
  by_cases early : seen o
  · obtain ⟨e, gained, -, inside⟩ := first.gains early there plain
    obtain ⟨same, there', -, between⟩ := gained
    obtain rfl := Option.some.inj (there.symm.trans there')
    have still := second.kept between (.inl nofun)
    obtain rfl : e = d := by simpa using still.symm.trans after
    exact .inl ⟨⟨slot, there, plain, between⟩, inside⟩
  · have between := first.kept there (.inr early)
    by_cases late : seen' o
    · obtain ⟨e, gained, least, -⟩ := second.gains late between plain
      obtain rfl : e = d := gained.unique ⟨slot, between, plain, after⟩
      exact .inr ⟨gained, least⟩
    · have still := second.kept between (.inr late)
      rw [still] at after
      rw [Option.some.inj after] at plain
      cases plain

theorem append {a b c : World} (first : Marks a seen b) (second : Marks b seen' c) :
    Marks a (fun o => seen o ∨ seen' o) c where
  keys o := (second.keys o).trans (first.keys o)
  kept there unmarked := by
    have between := first.kept there (unmarked.imp_right fun away early => away (.inl early))
    exact second.kept between (unmarked.imp_right fun away late => away (.inr late))
  gains {o slot i} among there plain := by
    by_cases early : seen o
    · obtain ⟨d, ⟨same, there', -, between⟩, least, inside⟩ := first.gains early there plain
      obtain rfl := Option.some.inj (there.symm.trans there')
      have still := second.kept between (.inl nofun)
      exact ⟨d, ⟨slot, there, plain, still⟩, least, Nat.lt_of_lt_of_le inside second.size⟩
    · have between := first.kept there (.inr early)
      obtain ⟨d, ⟨same, there', -, after⟩, least, inside⟩ :=
        second.gains (among.resolve_left early) between plain
      obtain rfl := Option.some.inj (between.symm.trans there')
      exact ⟨d, ⟨slot, there, plain, after⟩, Nat.le_trans first.size least, inside⟩
  apart one other := by
    rcases gains_cases first second one with ⟨early, inside⟩ | ⟨late, least⟩
    · rcases gains_cases first second other with ⟨early', -⟩ | ⟨-, least⟩
      · exact first.apart early early'
      · exact absurd inside (Nat.not_lt_of_le least)
    · rcases gains_cases first second other with ⟨-, inside⟩ | ⟨late', -⟩
      · exact absurd inside (Nat.not_lt_of_le least)
      · exact second.apart late late'
  size := Nat.le_trans first.size second.size

end Marks

private theorem keys_track (p : Properties) (next : Nat) : (p.track next).keys = p.keys :=
  Properties.map_key_trackSlots next p.slots

/-- Tracking hands out the lists in the order of the places. -/
private theorem gains_trackObject {w : World} {i : Nat}
    (gains : Gains w (w.trackObject observed).1 o i d) :
    o = observed ∧ d = ⟨w.deps.size + (w.properties o).untrackedBefore i⟩ ∧
      ∃ slot, (w.properties o).slots[i]? = some slot ∧ slot.dep = none := by
  obtain ⟨slot, there, plain, after⟩ := gains
  rw [properties_trackObject] at after
  split at after
  · rename_i same
    rw [Properties.getElem?_track, there, Option.map_some, Slot.listedIn_of_plain _ plain] at after
    exact ⟨same, by simpa using after.symm, slot, there, plain⟩
  · rw [there] at after
    rw [Option.some.inj after] at plain
    cases plain

theorem marks_trackObject (w : World) (observed : ObjectId) :
    Marks w (· = observed) (w.trackObject observed).1 where
  keys o := by
    rw [properties_trackObject]
    split
    · exact keys_track _ _
    · rfl
  kept {o slot i} there unmarked := by
    rw [properties_trackObject]
    split
    · rename_i same
      obtain ⟨d, tracked⟩ := Option.ne_none_iff_exists'.mp (unmarked.resolve_right (· same))
      rw [Properties.getElem?_track, there, Option.map_some, Slot.listedIn_of_dep _ tracked]
    · exact there
  gains {o slot i} same there plain := by
    obtain rfl : o = observed := same
    refine ⟨⟨w.deps.size + (w.properties o).untrackedBefore i⟩, ⟨slot, there, plain, ?_⟩,
      Nat.le_add_right _ _, ?_⟩
    · rw [properties_trackObject, if_pos rfl, Properties.getElem?_track, there, Option.map_some,
        Slot.listedIn_of_plain _ plain]
    · have count : (w.trackObject o).2.length = (w.properties o).untrackedCount :=
        (Properties.untrackedCount_eq_length _).symm
      rw [size_deps_trackObject, count]
      exact Nat.add_lt_add_left (Properties.untrackedBefore_lt_count there plain) _
  apart {o d o' i j} one other := by
    obtain ⟨rfl, first, slot, there, plain⟩ := gains_trackObject one
    obtain ⟨rfl, second, slot', there', plain'⟩ := gains_trackObject other
    have same : (w.properties o').untrackedBefore i = (w.properties o').untrackedBefore j := by
      simpa using first.symm.trans second
    exact ⟨rfl, Properties.untrackedBefore_inj there plain there' plain' same⟩
  size := by
    rw [size_deps_trackObject]
    exact Nat.le_add_right _ _

/-- The walk tracks what it comes to. -/
theorem marks_observeAll (w : World) (pending : List Value) :
    Marks w (w.Reached pending) (w.observeAll pending) := by
  induction w, pending using observeAll.induct with
  | case1 w =>
    rw [observeAll]
    refine (Marks.refl w).congr fun o => ⟨fun reached => ?_, False.elim⟩
    induction reached with
    | given listed => cases listed
    | through _ _ _ _ ih => exact ih
  | case2 w o rest ih =>
    rw [observeAll]
    exact ((marks_trackObject w o).append ih).congr (reached_cons w o rest)
  | case3 w v rest plain ih =>
    rw [observeAll]
    · exact ih.congr (reached_cons_plain plain rest)
    · exact plain

section Recursion

/-- Observes a value by calls that nest: the properties of an object are tracked, and then
each value is observed that stood in one of those that were not. `none` if the calls would
nest deeper than is allowed. -/
def observeWithin : Nat → World → Value → Option World
  | 0, _, _ => none
  | depth + 1, w, v =>
    match v with
    | .object o => (w.trackObject o).2.foldlM (observeWithin depth) (w.trackObject o).1
    | _ => some w

/-- Values are observed one after the other. -/
theorem observeAll_append (w : World) (first second : List Value) :
    w.observeAll (first ++ second) = (w.observeAll first).observeAll second := by
  induction w, first using observeAll.induct with
  | case1 w => rw [observeAll, List.nil_append]
  | case2 w o rest ih =>
    rw [List.cons_append, observeAll, observeAll, ← List.append_assoc, ih]
  | case3 w v rest plain ih =>
    have skip : ∀ values, w.observeAll (v :: values) = w.observeAll values := fun values => by
      rw [observeAll]
      exact plain
    rw [List.cons_append, skip, skip, ih]

theorem untracked_observeAll (w : World) (pending : List Value) :
    (w.observeAll pending).untracked ≤ w.untracked := by
  induction w, pending using observeAll.induct with
  | case1 w => exact Nat.le_of_eq (by rw [observeAll])
  | case2 w o rest ih =>
    rw [observeAll]
    exact Nat.le_trans ih (w.untracked_trackObject o ▸ Nat.le_add_right _ _)
  | case3 w v rest plain ih =>
    rw [observeAll]
    · exact ih
    · exact plain

/-- Observing values in turn is what each call does if each of them comes to its end. -/
private theorem foldlM_observeWithin (ends : ∀ w v, w.untracked < depth →
      observeWithin depth w v = some (w.observe v)) (w : World) (values : List Value)
    (few : w.untracked < depth) :
    values.foldlM (observeWithin depth) w = some (w.observeAll values) := by
  induction values generalizing w with
  | nil => simp [observeAll]
  | cons v rest ih =>
    have fewer : (w.observe v).untracked < depth :=
      Nat.lt_of_le_of_lt (w.untracked_observeAll [v]) few
    have split : w.observeAll (v :: rest) = (w.observe v).observeAll rest :=
      w.observeAll_append [v] rest
    rw [List.foldlM_cons, ends w v few, split]
    exact ih _ fewer

/-- The nested calls come to an end, on every heap: whenever one is made for the value of a
property that was not tracked, there is one such property less. -/
theorem observeWithin_eq (few : w.untracked < depth) (v : Value) :
    observeWithin depth w v = some (w.observe v) := by
  induction depth generalizing w v with
  | zero => cases few
  | succ depth ih =>
    cases v with
    | object o =>
      have counts := w.untracked_trackObject o
      rw [observeWithin, observe, observeAll, List.append_nil]
      by_cases leaf : (w.trackObject o).2 = []
      · simp [leaf, observeAll]
      · have some_ := List.length_pos_iff.mpr leaf
        exact foldlM_observeWithin (fun w v few => ih few v) _ _ (by omega)
    | _ => simp [observeWithin, observe, observeAll]

end Recursion

section Again

private theorem track_of_tracked {p : Properties} (tracked : ∀ slot ∈ p.slots, slot.dep ≠ none)
    (next : Nat) : p.track next = p := by
  have slots : (p.track next).slots = p.slots := by
    apply List.ext_getElem?
    intro i
    rw [Properties.getElem?_track]
    cases there : p.slots[i]? with
    | none => rfl
    | some slot =>
      obtain ⟨d, listed⟩ :=
        Option.ne_none_iff_exists'.mp (tracked slot (List.mem_of_getElem? there))
      rw [Option.map_some, Slot.listedIn_of_dep _ listed]
  have index : (p.track next).index = p.index := rfl
  cases p
  cases tracked' : Properties.track next _
  simp_all

/-- The walk passes over an object with nothing to be tracked. -/
theorem trackObject_of_tracked {w : World}
    (tracked : ∀ slot ∈ (w.properties o).slots, slot.dep ≠ none) : w.trackObject o = (w, []) := by
  have nothing : (w.properties o).untrackedValues = [] := by
    rw [Properties.untrackedValues, List.map_eq_nil_iff, List.filter_eq_nil_iff]
    intro slot there plain
    exact tracked slot there (Option.isNone_iff_eq_none.mp plain)
  have objects : w.objects.modify o.index (·.track w.deps.size) = w.objects := by
    apply Arena.ext_get?
    intro i
    rw [Arena.get?_modify]
    split
    · rename_i here
      subst here
      cases existing : w.objects.get? o.index with
      | none => rfl
      | some p =>
        have held : w.properties o = p := by simp [properties, existing]
        rw [Option.map_some, track_of_tracked (held ▸ tracked)]
    · rfl
  simp [trackObject, nothing, objects]

/-- All properties are tracked of what the walk comes to. -/
theorem tracked_observeAll {w : World} (reached : w.Reached pending o)
    (there : slot ∈ ((w.observeAll pending).properties o).slots) : slot.dep ≠ none := by
  obtain ⟨i, found⟩ := List.mem_iff_getElem?.mp there
  rcases (marks_observeAll w pending).origin found with
    ⟨-, tracked | away⟩ | ⟨-, before, d, -, -, rfl⟩
  · exact tracked
  · exact absurd reached away
  · exact nofun

/-- What was observed is not changed by observing it again. -/
theorem observe_observe (w : World) (v : Value) : (w.observe v).observe v = w.observe v := by
  cases v with
  | object o =>
    have reached : w.Reached [.object o] o := .given List.mem_cons_self
    have passed : (w.observe (.object o)).trackObject o = (w.observe (.object o), []) :=
      trackObject_of_tracked fun _ there => tracked_observeAll reached there
    generalize w.observe (.object o) = now at passed
    rw [observe, observeAll, passed, List.nil_append, observeAll]
  | _ => simp [observe, observeAll]

end Again

/-- Every property that is tracked has a list that exists. -/
def ListsExist (w : World) : Prop :=
  ∀ o, ∀ slot ∈ (w.properties o).slots, ∀ d, slot.dep = some d → d.index < w.deps.size

theorem Sound.listsExist {w : World} (sound : w.Sound) : w.ListsExist := by
  intro o slot there d listed
  obtain ⟨i, found⟩ := List.mem_iff_getElem?.mp there
  have held : w.slot? o slot.key = some slot := Properties.find?_eq_some_iff.mpr ⟨i, found, rfl⟩
  exact sound.dep held listed

/-- What a world has become by observing a value, in full. -/
structure Observed (w : World) (v : Value) (w' : World) : Prop where
  /-- The nested calls end with it. -/
  ends {depth : Nat} : w.untracked < depth → observeWithin depth w v = some w'
  /-- Whatever is reached becomes tracked in its place, with a new and empty list that no
  other property has. -/
  gains {i : Nat} : w.Reached [v] o → (w.properties o).slots[i]? = some slot → slot.dep = none →
    ∃ d, (w'.properties o).slots[i]? = some { slot with dep := some d } ∧
      w.deps.size ≤ d.index ∧ d.index < w'.deps.size ∧ w'.entries d = [] ∧
      ∀ o' (j : Nat) slot', (w'.properties o').slots[j]? = some slot' → slot'.dep = some d →
        o' = o ∧ j = i
  /-- Whatever was tracked, or is not reached, is as it was. -/
  kept {i : Nat} : (w.properties o).slots[i]? = some slot → slot.dep ≠ none ∨ ¬w.Reached [v] o →
    (w'.properties o).slots[i]? = some slot
  keys (o : ObjectId) : (w'.properties o).keys = (w.properties o).keys
  entries (d : DepId) : w'.entries d = w.entries d
  objects : w'.objects.size = w.objects.size
  rest : w' = { w with objects := w'.objects, deps := w'.deps }
  again : w'.observe v = w'

/-- Observing adds lists and leads to them; no object is added and nothing else changes. -/
theorem rest_observeAll (w : World) (pending : List Value) :
    (w.observeAll pending).objects.size = w.objects.size ∧ w.observeAll pending =
      { w with objects := (w.observeAll pending).objects, deps := (w.observeAll pending).deps } := by
  induction w, pending using observeAll.induct with
  | case1 w =>
    rw [observeAll]
    exact ⟨rfl, rfl⟩
  | case2 w o rest ih =>
    rw [observeAll]
    exact ⟨ih.1.trans (Arena.size_modify _ _ _), ih.2⟩
  | case3 w v rest plain ih =>
    rw [observeAll]
    · exact ih
    · exact plain

/-- A list that did not exist before belongs to the place that gained it. -/
private theorem Marks.place_unique {w w' : World} (marks : Marks w seen w') (exist : w.ListsExist)
    {i j : Nat} (gains : Gains w w' o i d) (new : w.deps.size ≤ d.index)
    (there : (w'.properties o').slots[j]? = some slot) (listed : slot.dep = some d) :
    o' = o ∧ j = i := by
  rcases marks.origin there with ⟨was, -⟩ | ⟨-, before, e, was, plain, rfl⟩
  · exact absurd (exist o' slot (List.mem_of_getElem? was) d listed) (Nat.not_lt_of_le new)
  · obtain rfl := Option.some.inj listed
    exact marks.apart ⟨before, was, plain, there⟩ gains

/-- On every heap, however its objects refer to each other and whatever is tracked already,
observing a value ends, tracks exactly what can be reached through properties that were not
tracked, and changes nothing else; observing the value again changes nothing at all. -/
theorem observe_tracks_what_it_reaches {w : World} (exist : w.ListsExist) (v : Value) :
    Observed w v (w.observe v) where
  ends few := observeWithin_eq few v
  gains {o slot i} reached there plain := by
    have marks := marks_observeAll w [v]
    obtain ⟨d, gains, least, inside⟩ := marks.gains reached there plain
    have absent : w.entries d = [] := by
      have none : w.deps.get? d.index = none := Array.getElem?_eq_none least
      rw [World.entries, none, Option.getD_none]
    obtain ⟨slot', there', -, after⟩ := id gains
    obtain rfl := Option.some.inj (there.symm.trans there')
    exact ⟨d, after, least, inside, (entries_observe w v d).trans absent,
      fun o' j slot' found listed => marks.place_unique exist gains least found listed⟩
  kept := (marks_observeAll w [v]).kept
  keys := (marks_observeAll w [v]).keys
  entries := entries_observe w v
  objects := (rest_observeAll w [v]).1
  rest := (rest_observeAll w [v]).2
  again := observe_observe w v

/-- Of three objects the second has a tracked property that holds the first; the third holds the
second and itself. -/
def chained : World :=
  let (w, first) := newObject {} (.ofEntries [("y", .null)])
  let (w, second) := w.newObject (.ofEntries [("first", .object first)])
  ((w.trackObject second).1.newObject
    (.ofEntries [("second", .object second), ("third", .object ⟨2⟩)])).1

/-- The second object has another property, which is not tracked and holds the third. -/
def partlyTracked : World := chained.addProperty ⟨1⟩ "third" (.object ⟨2⟩) (by decide +kernel)

/-- Everything is tracked but the property of the first object: the way to it was closed. -/
theorem partly_tracked_observe :
    partlyTracked.ListsExist ∧
    Observed partlyTracked (.object ⟨1⟩) (partlyTracked.observe (.object ⟨1⟩)) ∧
    observeWithin 5 partlyTracked (.object ⟨1⟩) = some (partlyTracked.observe (.object ⟨1⟩)) ∧
    [0, 1, 2].map (fun i => ((partlyTracked.observe (.object ⟨1⟩)).properties ⟨i⟩).slots) =
      [[⟨"y", .null, none⟩],
        [⟨"first", .object ⟨0⟩, some ⟨0⟩⟩, ⟨"third", .object ⟨2⟩, some ⟨1⟩⟩],
        [⟨"second", .object ⟨1⟩, some ⟨2⟩⟩, ⟨"third", .object ⟨2⟩, some ⟨3⟩⟩]] := by
  have moves : Moves {} partlyTracked :=
    ((((Relation.ReflTransGen.single (.object _ _)).tail (.object _ _)).tail
      (.track _ ⟨1⟩)).tail (.object _ _)).tail (.add _ _)
  have sound : partlyTracked.Sound :=
    moves.sound (Machine.reachable_sound (Machine.reachable_initial ())).world
  have observed := observe_tracks_what_it_reaches sound.listsExist (.object ⟨1⟩)
  exact ⟨sound.listsExist, observed, observed.ends (by decide +kernel), by decide +kernel⟩

end World
end DataBinding
