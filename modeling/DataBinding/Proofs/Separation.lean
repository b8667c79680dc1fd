import DataBinding.Proofs.Mirrors
import DataBinding.Proofs.Values

/-! Separation in the heap. A host program that makes no references up never stores one to an object
that does not exist; so what is mounted on new objects has nothing in common with what can be reached
from anywhere else. -/
namespace DataBinding

/-- The values that a request asks to be stored in properties. -/
def Request.stores {P : Type} : Request P → List Value
  | .act (.newObject entries) => entries.map (·.2)
  | .write _ _ v => [v]
  | .assign _ _ v => [v]
  | _ => []

namespace World

/-- Whether the value is no object, or one that exists. -/
def has (w : World) : Value → Bool
  | .object o => o.index < w.objects.size
  | _ => true

theorem has_object {w : World} : w.has (.object o) = true ↔ o.index < w.objects.size := by
  simp [has]

theorem has_mono {w w' : World} (size : w.objects.size ≤ w'.objects.size) (there : w.has v = true) :
    w'.has v = true := by
  cases v with
  | object o => exact has_object.mpr (Nat.lt_of_lt_of_le (has_object.mp there) size)
  | _ => rfl

/-- Whatever properties hold exists. -/
def Grounded (w : World) : Prop := ∀ o, ∀ e ∈ (w.properties o).entries, w.has e.2 = true

section Grounded

theorem Grounded.of_entries {w w' : World} (grounded : w.Grounded)
    (size : w.objects.size ≤ w'.objects.size) (entries : ∀ o, ∀ e ∈ (w'.properties o).entries,
      e ∈ (w.properties o).entries ∨ w'.has e.2 = true) : w'.Grounded := fun o e there =>
  (entries o e there).elim (fun before => has_mono size (grounded o e before)) id

theorem Grounded.of_objects {w w' : World} (grounded : w.Grounded) (same : w'.objects = w.objects) :
    w'.Grounded :=
  grounded.of_entries (Nat.le_of_eq (by rw [same])) fun o _ there =>
    .inl (by rwa [properties, same] at there)

theorem Grounded.observe {w : World} (grounded : w.Grounded) (v : Value) :
    (w.observe v).Grounded :=
  grounded.of_entries (Nat.le_of_eq (rest_observeAll w [v]).1.symm) fun o _ there =>
    .inl (entries_observed w v o ▸ there)

theorem Grounded.newObject {w : World} (grounded : w.Grounded) (entries : List (String × Value))
    (given : ∀ e ∈ entries, w.has e.2 = true) : (w.newObject (.ofEntries entries)).1.Grounded := by
  have size := (Rests.newObject w entries).size
  refine grounded.of_entries size fun o e there => ?_
  by_cases new : o.index = w.objects.size
  · right
    rw [properties, World.newObject, Arena.get?_push, if_pos new, Option.getD_some,
      Properties.entries_ofEntries] at there
    exact has_mono size (given e (mem_of_settled there))
  · left
    rwa [properties, World.newObject, Arena.get?_push, if_neg new] at there

mutual

theorem grounded_build {w : World} (grounded : w.Grounded) :
    (json : Json) → (w.build json).1.Grounded ∧ (w.build json).1.has (w.build json).2 = true
  | .null => ⟨grounded, rfl⟩
  | .bool _ => ⟨grounded, rfl⟩
  | .number _ => ⟨grounded, rfl⟩
  | .string _ => ⟨grounded, rfl⟩
  | .array items => by
    obtain ⟨built, given⟩ := grounded_buildItems grounded 0 items
    refine ⟨built.newObject _ given, ?_⟩
    simp [build, has, World.newObject]
  | .object members => by
    obtain ⟨built, given⟩ := grounded_buildMembers grounded members
    refine ⟨built.newObject _ given, ?_⟩
    simp [build, has, World.newObject]

theorem grounded_buildItems {w : World} (grounded : w.Grounded) (number : Nat) :
    (items : List Json) → (w.buildItems number items).1.Grounded ∧
      ∀ e ∈ (w.buildItems number items).2, (w.buildItems number items).1.has e.2 = true
  | [] => ⟨grounded, fun e among => (nomatch among)⟩
  | item :: rest => by
    obtain ⟨first, given⟩ := grounded_build grounded item
    obtain ⟨later, others⟩ := grounded_buildItems first (number + 1) rest
    refine ⟨later, fun e among => ?_⟩
    rcases List.mem_cons.mp among with rfl | behind
    · exact has_mono (Rests.buildItems _ (number + 1) rest).size given
    · exact others e behind

theorem grounded_buildMembers {w : World} (grounded : w.Grounded) :
    (members : List (String × Json)) → (w.buildMembers members).1.Grounded ∧
      ∀ e ∈ (w.buildMembers members).2, (w.buildMembers members).1.has e.2 = true
  | [] => ⟨grounded, fun e among => (nomatch among)⟩
  | (key, json) :: rest => by
    obtain ⟨first, given⟩ := grounded_build grounded json
    obtain ⟨later, others⟩ := grounded_buildMembers first rest
    refine ⟨later, fun e among => ?_⟩
    rcases List.mem_cons.mp among with rfl | behind
    · exact has_mono (Rests.buildMembers _ rest).size given
    · exact others e behind

end

private theorem Grounded.mount {w w' : World} (grounded : w.Grounded)
    (mounted : w.mount element v = some (w', vm)) : w'.Grounded := by
  obtain ⟨bound, watchers, binds, rfl, -⟩ := mount_eq_some mounted
  have planted : (w.dataObject v).1.Grounded := by
    cases v with
    | object o => exact grounded
    | _ => exact grounded.newObject [] fun e among => (nomatch among)
  have objects := objects_bind binds
  exact (planted.observe _).of_objects objects

/-- A request stores nothing that does not exist, unless it is given that. -/
theorem Grounded.perform {w w' : World} (grounded : w.Grounded)
    (done : w.perform a = some (w', reply))
    (given : ∀ entries, a = .newObject entries → ∀ e ∈ entries, w.has e.2 = true) :
    w'.Grounded := by
  cases a with
  | newObject entries =>
    cases done
    exact grounded.newObject entries (given entries rfl)
  | build json =>
    cases done
    exact (grounded_build grounded json).1
  | observe v =>
    cases done
    exact grounded.observe v
  | mount element v =>
    obtain ⟨vm, ran⟩ := perform_mount_eq_some done
    exact grounded.mount ran
  | mountOptions options document =>
    rcases perform_mountOptions_cases done with ⟨rfl, -⟩ | ⟨vm, mounted⟩
    · exact grounded
    · obtain ⟨element, ran⟩ := mountOptions_eq_some mounted
      exact (grounded_build grounded options.data).1.mount ran
  | read o key =>
    cases done
    exact grounded.of_objects (objects_read w o key)
  | depend d =>
    cases done
    unfold depend
    split <;> exact grounded.of_objects rfl
  | setText n content =>
    cases done
    exact grounded.of_objects (objects_setText w n content)
  | bind b root =>
    rcases perform_bind_cases done with rfl | ⟨binder, bound, watchers, -, ran, rfl⟩
    · exact grounded
    · have objects := objects_bind ran
      exact grounded.of_objects objects
  | detach b =>
    rcases perform_detach_cases done with rfl | ⟨binder, -, rfl⟩ <;> exact grounded.of_objects rfl
  | newDep | leave | release | newText | newElement | appendChild | setAttribute
  | setControlValue | newBinder | releaseBinder | releaseBundle | releaseViewModel =>
    cases done
    exact grounded.of_objects rfl

/-- What a write leaves in properties was there, or is the value. -/
theorem entries_write {w : World} (there : e ∈ ((w.write o key v).1.properties x).entries) :
    e ∈ (w.properties x).entries ∨ x = o ∧ e = (key, v) := by
  have put : ∀ {p : Properties}, e ∈ putMember key v p.entries → e ∈ p.entries ∨ e = (key, v) :=
    fun there => (List.mem_cons.mp ((subperm_putMember key v _).subset there)).symm
  unfold write at there
  split at there
  · rename_i absent
    rcases properties_addProperty_cases v absent x with same | ⟨rfl, same⟩
    · exact .inl (same ▸ there)
    · rw [same, Properties.entries_append absent] at there
      exact (put there).imp id fun same => ⟨rfl, same⟩
  · rename_i slot found
    have replaced : e ∈ ((w.modifyObject o (·.replace key v)).properties x).entries →
        e ∈ (w.properties x).entries ∨ x = o ∧ e = (key, v) := fun there => by
      rcases properties_modifyObject_cases w o (·.replace key v) x with same | ⟨rfl, same⟩
      · exact .inl (same ▸ there)
      · rw [same, Properties.entries_replace found] at there
        exact (put there).imp id fun same => ⟨rfl, same⟩
    split at there
    · exact replaced there
    · split at there
      · exact .inl there
      · rw [entries_observed] at there
        exact replaced there

theorem Grounded.write {w : World} (grounded : w.Grounded) (o : ObjectId) (key : String)
    (there : w.has v = true) : (w.write o key v).1.Grounded := by
  have size : w.objects.size ≤ (w.write o key v).1.objects.size := Nat.le_of_eq (size_write ..).symm
  refine grounded.of_entries size fun x e held => ?_
  rcases entries_write held with before | ⟨-, rfl⟩
  · exact .inl before
  · exact .inr (has_mono size there)

end Grounded

/-- The dependency list is one of a property that can be reached. -/
def Lists (w : World) (data : ObjectId) (d : DepId) : Prop :=
  ∃ o, w.Contains data o ∧ ∃ slot ∈ (w.properties o).slots, slot.dep = some d

/-- Nothing can be reached from both objects, neither an object nor a dependency list. -/
structure Apart (w : World) (a b : ObjectId) : Prop where
  objects : w.Contains a o → ¬w.Contains b o
  lists : w.Lists a d → ¬w.Lists b d

theorem Apart.symm {w : World} (apart : w.Apart a b) : w.Apart b a where
  objects reached reached' := apart.objects reached' reached
  lists listed listed' := apart.lists listed' listed

/-- A dependency list leads back to its property. -/
theorem Sound.object_of_dep {w : World} (sound : w.Sound)
    (there : slot ∈ (w.properties o).slots) (listed : slot.dep = some d)
    (there' : slot' ∈ (w.properties o').slots) (listed' : slot'.dep = some d) : o = o' := by
  have found : ∀ {o slot}, slot ∈ (w.properties o).slots → w.slot? o slot.key = some slot :=
    fun there => by
      obtain ⟨i, placed⟩ := List.mem_iff_getElem?.mp there
      exact Properties.find?_eq_some_iff.mpr ⟨i, placed, rfl⟩
  exact (sound.apart (found there) listed (found there') listed').1

theorem Sound.apart_of_objects {w : World} (sound : w.Sound)
    (objects : ∀ o, w.Contains a o → ¬w.Contains b o) : w.Apart a b where
  objects := objects _
  lists {d} := by
    rintro ⟨o, reached, slot, there, listed⟩ ⟨o', reached', slot', there', listed'⟩
    obtain rfl := sound.object_of_dep there listed there' listed'
    exact objects o reached reached'

/-- From an object that existed, what has been mounted on new ones cannot be reached. -/
theorem Plants.apart {w w' : World} (plants : Plants w json data w') (grounded : w.Grounded)
    (kept : ∀ o, o.index < w.objects.size → (w'.properties o).entries = (w.properties o).entries)
    (sound : w'.Sound) (existing : a.index < w.objects.size) : w'.Apart a data := by
  have old : ∀ {o}, w'.Contains a o → o.index < w.objects.size := fun reached => by
    induction reached with
    | self => exact existing
    | @through x slot y _ there leads ih =>
      have entry : (slot.key, .object y) ∈ (w'.properties x).entries :=
        mem_entries.mpr ⟨slot, there, rfl, leads⟩
      rw [kept x ih] at entry
      exact has_object.mp (grounded x _ entry)
  exact sound.apart_of_objects fun o reached reached' =>
    absurd (old reached) (Nat.not_lt_of_le (plants.new reached').1)

/-- Mounting options changes no object that existed, except that properties may become tracked. -/
theorem entries_mountOptions {w w' : World}
    (mounted : w.mountOptions document options = some (.ok (w', vm)))
    (found : w'.viewModel? vm = some view) (existing : o.index < w.objects.size) :
    (w'.properties o).entries = (w.properties o).entries := by
  obtain ⟨bound, -, binds, rfl⟩ := mountOptions_eq_ok mounted found
  let planted := ((w.build options.data).1.dataObject (w.build options.data).2).1
  have rests : Rests w planted := (Rests.build w options.data).trans (.dataObject _ _)
  change (bound.properties o).entries = _
  calc (bound.properties o).entries
      = ((planted.observe (.object view.data)).properties o).entries := by
        rw [properties, objects_bind binds]
        rfl
    _ = (planted.properties o).entries := entries_observed planted _ o
    _ = (w.properties o).entries := by rw [rests.kept existing]

end World

namespace Machine
open World

variable {σ : Type}

/-- The machine takes steps, each of them from a state with a property, and is started again
whenever it is idle. -/
inductive Takes (P : Machine σ → Prop) (m : Machine σ) : Machine σ → Prop where
  | refl : Takes P m m
  | step (takes : Takes P m a) (holds : P a) : Takes P m a.step
  | start (takes : Takes P m a) (idle : a.idle = true) (host : σ) (p : Program σ) :
      Takes P m (start { a with host := host } p)

theorem Takes.trans {a b c : Machine σ} (first : Takes P a b) (second : Takes P b c) : Takes P a c := by
  induction second with
  | refl => exact first
  | step _ holds ih => exact ih.step holds
  | start _ idle host p ih => exact ih.start idle host p

theorem Takes.reachable {m m' : Machine σ} (takes : Takes P m m') (reachable : m.Reachable) :
    m'.Reachable := by
  induction takes with
  | refl => exact reachable
  | step _ _ ih => exact reachable_step ih
  | start _ idle host p ih => exact reachable_start ih idle host p

/-- Whether the next step asks for nothing to be stored that does not exist. -/
def honest (m : Machine σ) : Bool :=
  match m.frames with
  | .program (.call r _) :: _ => r.stores.all m.world.has
  | _ => true

private theorem has_of_writing {m : Machine σ} (honest : m.honest = true)
    (calling : m.writing? = some call) : m.world.has call.value = true := by
  unfold Machine.honest at honest
  unfold writing? at calling
  split at calling
  · rename_i due
    obtain rfl := Option.some.inj calling
    simpa [due, Request.stores] using honest
  · rename_i due
    obtain ⟨view, -, rfl⟩ := Option.map_eq_some_iff.mp calling
    simpa [due, Request.stores] using honest
  · obtain rfl := Option.some.inj calling
    rfl
  · cases calling

/-- An honest step stores nothing that does not exist. -/
theorem grounded_step {m : Machine σ} (honest : m.honest = true) (grounded : m.world.Grounded) :
    m.step.world.Grounded := by
  cases calling : m.writing? with
  | some call =>
    exact (grounded.write call.root call.key (has_of_writing honest calling)).of_objects
      (objects_of_writing calling)
  | none =>
    by_cases acting : ∃ a next below, m.frames = .program (.call (.act a) next) :: below
    · obtain ⟨a, next, below, due⟩ := acting
      rcases step_of_acting due with ⟨reply, done⟩ | ⟨-, targets, same⟩
      · refine grounded.perform done ?_
        rintro entries rfl e among
        simp only [Machine.honest, due, Request.stores, List.all_map, List.all_eq_true] at honest
        exact honest e among
      · exact grounded.of_objects (by rw [same])
    · simp only [not_exists] at acting
      exact grounded.of_objects (objects_step calling acting)

theorem Takes.grounded {m m' : Machine σ} (takes : Takes (fun a => a.honest = true) m m')
    (grounded : m.world.Grounded) : m'.world.Grounded := by
  induction takes with
  | refl => exact grounded
  | step _ honest ih => exact grounded_step honest ih
  | start _ _ _ _ ih => exact ih

theorem Takes.size {m m' : Machine σ} (takes : Takes P m m') :
    m.world.objects.size ≤ m'.world.objects.size := by
  induction takes with
  | refl => exact Nat.le_refl _
  | step _ _ ih => exact Nat.le_trans ih (size_objects_step _)
  | start _ _ _ _ ih => exact ih

end Machine
end DataBinding
