import DataBinding.Proofs.Reactive

/-! Keys that come late. When a value is observed, the walk stops at properties that are tracked
already, so it passes over keys that an object behind them was given after it had been observed.
These are all that is left untracked: at any moment a property is tracked if and only if it was
there when its object was last observed. -/
namespace DataBinding

/-- Which objects have been observed so far, and which keys were there when that was done last. -/
structure History where
  observed : ObjectId → Prop
  present : ObjectId → String → Prop

namespace World

/-- The history once the pending values are observed in a world. Objects lose no keys, so those that
were there at an earlier time still are. -/
def record (w : World) (h : History) (pending : List Value) : History where
  observed o := h.observed o ∨ w.Reached pending o
  present o key := h.present o key ∨ w.Reached pending o ∧ key ∈ (w.properties o).keys

/-- Exactly those properties are tracked that were there when their object was observed, and what
these hold was observed or is about to be. -/
structure Recalls (w : World) (h : History) (pending : List Value) : Prop where
  listed : h.present o key → key ∈ (w.properties o).keys
  observed : h.present o key → h.observed o
  tracked : slot ∈ (w.properties o).slots → (slot.dep ≠ none ↔ h.present o slot.key)
  held : slot ∈ (w.properties o).slots → slot.dep ≠ none → slot.value = .object x →
    h.observed x ∨ .object x ∈ pending

namespace Recalls

theorem of_objects {w w' : World} (recalls : Recalls w h pending)
    (same : w'.objects = w.objects) : Recalls w' h pending where
  listed present := by
    rw [properties, same]
    exact recalls.listed present
  observed := recalls.observed
  tracked there := recalls.tracked (by rwa [properties, same] at there)
  held there := recalls.held (by rwa [properties, same] at there)

theorem mono {w : World} (recalls : Recalls w h []) : Recalls w h pending where
  listed := recalls.listed
  observed := recalls.observed
  tracked := recalls.tracked
  held there listed leads := .inl ((recalls.held there listed leads).resolve_right (by simp))

/-- Properties that are added are not tracked, and none that was tracked changes. -/
theorem rests {w w' : World} (recalls : Recalls w h pending) (retains : Retains w w')
    (tracked : ∀ {o slot}, slot ∈ (w'.properties o).slots → slot.dep ≠ none →
      slot ∈ (w.properties o).slots) : Recalls w' h pending where
  listed present := (retains _).keys.subset (recalls.listed present)
  observed := recalls.observed
  tracked {o slot} there := by
    refine ⟨fun listed => (recalls.tracked (tracked there listed)).mp listed, fun present => ?_⟩
    obtain ⟨before, was, named⟩ := List.mem_map.mp (recalls.listed present)
    obtain ⟨d, listed⟩ := Option.ne_none_iff_exists'.mp
      ((recalls.tracked was).mpr (named ▸ present))
    obtain ⟨i, found⟩ := List.mem_iff_getElem?.mp was
    obtain ⟨later, now, same, still⟩ := retains o i before found
    have first := Properties.find?_eq_some_iff.mpr ⟨i, now, same.trans named⟩
    obtain ⟨j, placed⟩ := List.mem_iff_getElem?.mp there
    have second := Properties.find?_eq_some_iff.mpr ⟨j, placed, rfl⟩
    obtain rfl := Option.some.inj (first.symm.trans second)
    exact still d listed ▸ nofun
  held there listed := recalls.held (tracked there listed) listed

/-- A value that is stored is about to be observed. -/
theorem replace {w : World} (recalls : Recalls w h []) (o : ObjectId) (key : String)
    (value : Value) : Recalls (w.modifyObject o (·.replace key value)) h [value] := by
  refine ⟨fun {x key'} present => ?_, recalls.observed, fun there => ?_,
    fun there listed leads => ?_⟩
  · have before := recalls.listed present
    rcases properties_modifyObject_cases w o (·.replace key value) x with same | ⟨-, same⟩
    · rwa [same]
    · rwa [same, Properties.keys_replace]
  · obtain ⟨before, was, named, same, -⟩ := slots_replace there
    rw [named, same]
    exact recalls.tracked was
  · obtain ⟨before, was, -, same, kept | stored⟩ := slots_replace there
    · exact .inl ((recalls.held was (same ▸ listed) (kept ▸ leads)).resolve_right (by simp))
    · exact .inr (by simp [← stored, leads])

/-- Once the pending values are observed, nothing is pending, and the history goes on. -/
theorem observe {w : World} (recalls : Recalls w h pending) :
    Recalls (w.observeAll pending) (w.record h pending) [] := by
  have marks := marks_observeAll w pending
  constructor
  · rintro o key (early | ⟨-, there⟩)
    · rw [marks.keys]
      exact recalls.listed early
    · rwa [marks.keys]
  · rintro o key (early | ⟨reached, -⟩)
    · exact .inl (recalls.observed early)
    · exact .inr reached
  · intro o slot there
    have listed : slot.key ∈ (w.properties o).keys := marks.keys o ▸ List.mem_map_of_mem there
    constructor
    · intro tracked
      rcases slots_observeAll there with was | ⟨reached, -⟩
      · exact .inl ((recalls.tracked was).mp tracked)
      · exact .inr ⟨reached, listed⟩
    · rintro (early | ⟨reached, -⟩)
      · rcases slots_observeAll there with was | ⟨-, tracked, -⟩
        · exact (recalls.tracked was).mpr early
        · exact tracked
      · exact tracked_observeAll reached there
  · intro o slot x there listed leads
    left
    rcases slots_observeAll there with was | ⟨reached, -, before, was, plain, same⟩
    · exact (recalls.held was listed leads).imp_right .given
    · exact .inr (reached.through was plain (same.trans leads))

end Recalls

/-- What can be reached from a value through properties that were there when their objects were
observed. -/
inductive Within (w : World) (h : History) (v : Value) : ObjectId → Prop where
  | given (here : v = .object o) : Within w h v o
  | through (within : Within w h v o) (there : slot ∈ (w.properties o).slots)
      (present : h.present o slot.key) (leads : slot.value = .object x) : Within w h v x

end World

namespace Machine
open World

variable {σ : Type}

/-- The history after the next step. -/
def record (m : Machine σ) (h : History) : History :=
  match m.observing? with
  | none => h
  | some (w, v) => w.record h [v]

/-- The machine comes about by running programs one after the other, with this history. -/
inductive Remembers : Machine σ → History → Prop where
  | initial (host : σ) : Remembers { host := host } ⟨fun _ => False, fun _ _ => False⟩
  | step {m : Machine σ} (before : Remembers m h) : Remembers m.step (m.record h)
  | start {m : Machine σ} (before : Remembers m h) (idle : m.idle = true) (host : σ)
      (p : Program σ) : Remembers (start { m with host := host } p) h

theorem Remembers.reachable {m : Machine σ} (remembers : Remembers m h) : m.Reachable := by
  induction remembers with
  | initial host => exact reachable_initial host
  | step _ ih => exact reachable_step ih
  | start _ idle host p ih => exact reachable_start ih idle host p

/-- Whatever can come about has a history. -/
theorem exists_remembers {m : Machine σ} (reachable : m.Reachable) : ∃ h, Remembers m h := by
  obtain ⟨host, led⟩ := reachable
  induction led with
  | refl => exact ⟨_, .initial host⟩
  | step _ _ ih =>
    obtain ⟨h, before⟩ := ih
    exact ⟨_, before.step⟩
  | start _ idle host p _ ih =>
    obtain ⟨h, before⟩ := ih
    exact ⟨h, before.start idle host p⟩

private theorem recalls_step {m : Machine σ} (recalls : Recalls m.world h [])
    (retains : Retains m.world m.step.world) : Recalls m.step.world (m.record h) [] := by
  unfold record
  cases step_concerns m with
  | rests nothing rests =>
    rw [nothing]
    exact recalls.rests retains rests.tracked
  | silent nothing _ written =>
    rw [nothing]
    exact recalls.rests retains (tracked_write written)
  | @stores call _ observes objects =>
    rw [observes]
    exact (recalls.replace call.root call.key call.value).observe.of_objects objects
  | @observes w v observes rests moves objects =>
    rw [observes]
    exact (recalls.rests moves.retains rests.tracked).mono.observe.of_objects objects

theorem Remembers.recalls {m : Machine σ} (remembers : Remembers m h) : Recalls m.world h [] := by
  induction remembers with
  | initial host =>
    exact ⟨False.elim, False.elim, fun there => (nomatch there), fun there => (nomatch there)⟩
  | step before ih =>
    have sound := reachable_sound before.reachable
    exact recalls_step ih (step_turn fun _ => sound.known).retains
  | start _ _ _ _ ih => exact ih

/-- A step that observes a value leaves the objects as that makes them. -/
theorem objects_of_observing {m : Machine σ} (observes : m.observing? = some (w, v)) :
    m.step.world.objects = (w.observe v).objects := by
  cases step_concerns m with
  | rests nothing | silent nothing => cases nothing.symm.trans observes
  | stores _ observes' objects | observes observes' _ _ objects =>
    cases observes'.symm.trans observes
    exact objects

/-- When a value has just been observed, by itself or because it was stored in a tracked property
and nobody has been told yet, all properties are tracked of what the walk came to, that is of
whatever could be reached through properties that were not tracked before. Whatever else can be
reached has been observed at some time, and of its properties exactly those are not tracked that it
was given after that. -/
theorem observed_values_are_tracked_but_for_late_keys {m : Machine σ} (remembers : Remembers m h)
    (observes : m.observing? = some (w, v)) :
    (∀ o, w.Reached [v] o → ∀ slot ∈ (m.step.world.properties o).slots, slot.dep ≠ none) ∧
    ∀ o, m.step.world.Within (m.record h) v o → (m.record h).observed o ∧
      ∀ slot ∈ (m.step.world.properties o).slots,
        slot.dep ≠ none ↔ (m.record h).present o slot.key := by
  have recalls := remembers.step.recalls
  have history : m.record h = w.record h [v] := by rw [record, observes]
  refine ⟨fun o reached slot there => ?_, fun o within => ⟨?_, fun slot => recalls.tracked⟩⟩
  · rw [properties, objects_of_observing observes] at there
    exact tracked_observeAll reached there
  · cases within with
    | given here =>
      rw [history]
      exact .inr (.given (by simp [here]))
    | through _ there present leads =>
      have tracked := (recalls.tracked there).mpr present
      exact (recalls.held there tracked leads).resolve_right (by simp)

/-- An object is observed that holds another one. Then both are given one more key, and the first
is observed again. -/
def belated : Program Unit :=
  .call (.act (.newObject [("x", .bool true)])) fun _ =>
  .call (.act (.newObject [("user", .object ⟨0⟩)])) fun _ =>
  .call (.act (.observe (.object ⟨1⟩))) fun _ =>
  .call (.write ⟨0⟩ "late" .null) fun _ =>
  .call (.write ⟨1⟩ "more" .null) fun _ =>
  .call (.act (.observe (.object ⟨1⟩))) fun _ => .done

/-- The machine about to observe it again. -/
def belatedMachine : Machine Unit := run 5 (start { host := () } belated)

private theorem belated_reachable : belatedMachine.Reachable :=
  reachable_run 5 (reachable_start (reachable_initial ()) rfl () belated)

private theorem belated_observes : ∃ w, belatedMachine.observing? = some (w, .object ⟨1⟩) := by
  have observed : belatedMachine.observing?.map (·.2) = some (.object ⟨1⟩) := by decide +kernel
  obtain ⟨⟨w, v⟩, observes, rfl⟩ := Option.map_eq_some_iff.mp observed
  exact ⟨w, observes⟩

private theorem belated_slots :
    (belatedMachine.step.world.properties ⟨0⟩).slots =
      [⟨"x", .bool true, some ⟨1⟩⟩, ⟨"late", .null, none⟩] ∧
    (belatedMachine.step.world.properties ⟨1⟩).slots =
      [⟨"user", .object ⟨0⟩, some ⟨0⟩⟩, ⟨"more", .null, some ⟨2⟩⟩] := by
  decide +kernel

/-- The walk comes to the new key of the first object, and the history tells that the other one is
not tracked because the inner object was given it after being observed. -/
theorem belated_values_are_tracked_but_for_late_keys :
    ∃ (m : Machine Unit) (h : History) (w : World), Remembers m h ∧
      m.observing? = some (w, .object ⟨1⟩) ∧
      (∀ slot ∈ (m.step.world.properties ⟨1⟩).slots, slot.dep ≠ none) ∧
      (m.record h).observed ⟨0⟩ ∧ (m.record h).present ⟨0⟩ "x" ∧
      ¬(m.record h).present ⟨0⟩ "late" := by
  obtain ⟨h, remembers⟩ := exists_remembers belated_reachable
  obtain ⟨w, observes⟩ := belated_observes
  obtain ⟨inner, outer⟩ := belated_slots
  obtain ⟨whole, tells⟩ := observed_values_are_tracked_but_for_late_keys remembers observes
  have own := (tells ⟨1⟩ (.given rfl)).2 ⟨"user", .object ⟨0⟩, some ⟨0⟩⟩ (by simp [outer])
  have within : belatedMachine.step.world.Within (belatedMachine.record h) (.object ⟨1⟩) ⟨0⟩ :=
    .through (.given rfl) (by rw [outer]; exact List.mem_cons_self) (own.mp nofun) rfl
  obtain ⟨observed, slots⟩ := tells ⟨0⟩ within
  have first := slots ⟨"x", .bool true, some ⟨1⟩⟩ (by simp [inner])
  have second := slots ⟨"late", .null, none⟩ (by simp [inner])
  exact ⟨_, h, w, remembers, observes, whole ⟨1⟩ (.given List.mem_cons_self), observed,
    first.mp nofun, fun present => second.mpr present rfl⟩

/-- Not everything that can be reached from an observed value is tracked. -/
theorem late_key_stays_untracked :
    ¬∀ (m : Machine Unit) w o, m.Reachable → m.observing? = some (w, .object o) →
      ∀ x, m.step.world.Contains o x → ∀ slot ∈ (m.step.world.properties x).slots,
        slot.dep ≠ none := by
  intro all
  obtain ⟨w, observes⟩ := belated_observes
  obtain ⟨inner, outer⟩ := belated_slots
  have contains : belatedMachine.step.world.Contains ⟨1⟩ ⟨0⟩ :=
    .through .self (by rw [outer]; exact List.mem_cons_self) rfl
  exact all belatedMachine w ⟨1⟩ belated_reachable observes ⟨0⟩ contains ⟨"late", .null, none⟩
    (by simp [inner]) rfl

end Machine
end DataBinding
