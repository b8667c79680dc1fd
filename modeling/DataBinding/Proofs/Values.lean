import DataBinding.Proofs.Panics

/-! What properties hold, from step to step. Only a write puts another value into a property of an
object that exists: requests that tell nobody add objects, or observe them, and neither changes a
value. -/
namespace DataBinding
namespace World

/-- Whether a write stores the value. Only a tracked property refuses one, if it is identical to its
own. -/
def accepts (w : World) (o : ObjectId) (key : String) (v : Value) : Bool :=
  match w.slot? o key with
  | none => true
  | some slot => slot.dep.isNone || !slot.value.same v

theorem peek_observeAll (w : World) (pending : List Value) (o : ObjectId) (key : String) :
    (w.observeAll pending).peek o key = w.peek o key := by
  rw [peek_eq, peek_eq, value_observeAll]

private theorem peek_replace {w : World} (found : w.slot? written name = some slot) (v : Value)
    (o : ObjectId) (key : String) :
    (w.modifyObject written (·.replace name v)).peek o key =
      if written = o ∧ name = key then v else w.peek o key := by
  split
  · rename_i here
    obtain ⟨rfl, rfl⟩ := here
    exact peek_of_slot (slot?_replace_self v found)
  · rename_i other
    rcases properties_modifyObject_cases w written (·.replace name v) o with same | ⟨rfl, same⟩
    · rw [peek, same, peek]
    · have apart : key ≠ name := fun named => other ⟨rfl, named.symm⟩
      rw [peek, same, Properties.find?_replace, peek]
      cases (w.properties o).find? key <;> simp [apart]

private theorem peek_addProperty {w : World} (existing : o.index < w.objects.size)
    (absent : (w.properties written).find? name = none) (v : Value) (key : String) :
    (w.addProperty written name v absent).peek o key =
      if written = o ∧ name = key then v else w.peek o key := by
  unfold addProperty
  by_cases same : written = o
  · subst same
    have found : w.objects.get? written.index = some (w.properties written) := by
      simp [properties, Arena.get?, Array.getElem?_eq_getElem existing]
    rw [peek, properties_modifyObject_self w _ found, Properties.find?_append, peek]
    by_cases named : name = key
    · subst named
      simp [absent]
    · simp [named]
  · rw [if_neg fun here => same here.1, peek, properties_modifyObject_ne w _ (Ne.symm same), peek]

/-- A write changes the one property, if that accepts the value. -/
theorem peek_write {w : World} (existing : o.index < w.objects.size) (written : ObjectId)
    (name : String) (v : Value) (key : String) :
    (w.write written name v).1.peek o key =
      if written = o ∧ name = key ∧ w.accepts o key v then v else w.peek o key := by
  cases found : w.slot? written name with
  | none =>
    have accepts : written = o ∧ name = key → w.accepts o key v = true := by
      rintro ⟨rfl, rfl⟩
      simp [accepts, found]
    rw [write_of_absent found, peek_addProperty existing found]
    exact if_congr (by tauto) rfl rfl
  | some slot =>
    by_cases refused : slot.dep.isNone = false ∧ slot.value.same v = true
    · obtain ⟨tracked, same⟩ := refused
      obtain ⟨d, listed⟩ := Option.isSome_iff_exists.mp (by simpa using tracked)
      have rejects : ¬(written = o ∧ name = key ∧ w.accepts o key v = true) := by
        rintro ⟨rfl, rfl, accepted⟩
        simp [accepts, found, listed, same] at accepted
      rw [if_neg rejects]
      simp [write_of_found found, listed, same]
    · have accepts : written = o ∧ name = key → w.accepts o key v = true := by
        rintro ⟨rfl, rfl⟩
        cases plain : slot.dep <;> simp_all [accepts]
      have stored : (w.write written name v).1.peek o key =
          (w.modifyObject written (·.replace name v)).peek o key := by
        cases plain : slot.dep with
        | none => simp [write_of_found found, plain]
        | some d =>
          have changes : slot.value.same v = false := by simpa [plain] using refused
          rw [Machine.write_of_changes found plain changes]
          exact peek_observeAll _ _ o key
      rw [stored, peek_replace found]
      exact if_congr (by tauto) rfl rfl

theorem size_write (w : World) (o : ObjectId) (key : String) (v : Value) :
    (w.write o key v).1.objects.size = w.objects.size := by
  unfold write
  split
  · simp [addProperty, modifyObject]
  · split
    · simp [modifyObject]
    · split
      · rfl
      · exact (rest_observeAll _ _).1.trans (Arena.size_modify _ _ _)

end World

namespace Machine
open World

variable {σ : Type}

/-- The value that the next step puts into a property. -/
def puts? (m : Machine σ) (o : ObjectId) (key : String) : Option Value :=
  m.writing?.bind fun call =>
    if call.root = o ∧ call.key = key ∧ m.world.accepts o key call.value then some call.value
    else none

/-- Telling changes no object. -/
theorem objects_write (m : Machine σ) (o : ObjectId) (key : String) (v : Value) :
    (m.write o key v).world.objects = (m.world.write o key v).1.objects := by
  unfold Machine.write
  split
  · rename_i written
    rw [written]
  · rename_i written
    rw [written]
    rfl

theorem objects_of_writing {m : Machine σ} (calling : m.writing? = some call) :
    m.step.world.objects = (m.world.write call.root call.key call.value).1.objects := by
  rw [step_of_writing calling, objects_write, (caller_of_writing calling).1]

/-- A property of an object that exists holds what it held, or what the step puts into it. -/
theorem peek_step {m : Machine σ} (existing : o.index < m.world.objects.size) (key : String) :
    m.step.world.peek o key = (m.puts? o key).getD (m.world.peek o key) := by
  cases calling : m.writing? with
  | some call =>
    rw [peek_of_objects (objects_of_writing calling), peek_write existing, puts?, calling, Option.bind_some]
    split <;> rfl
  | none =>
    have kept : ∀ {w : World}, Rests m.world w → w.peek o key = m.world.peek o key := fun rests => by
      rw [peek, rests.kept existing, peek]
    rw [puts?, calling, Option.bind_none, Option.getD_none]
    cases step_concerns m with
    | rests _ rests => exact kept rests
    | silent _ writes | stores writes => cases calling.symm.trans writes
    | observes _ rests _ objects =>
      rw [peek_of_objects objects]
      exact (peek_observeAll _ _ o key).trans (kept rests)

/-- Objects are there for good. -/
theorem size_objects_step (m : Machine σ) : m.world.objects.size ≤ m.step.world.objects.size := by
  cases step_concerns m with
  | rests _ rests => exact rests.size
  | @silent call _ _ written =>
    have same : (m.world.write call.root call.key call.value).1.objects.size =
        m.world.objects.size := size_write ..
    rw [written] at same
    exact Nat.le_of_eq same.symm
  | stores _ _ objects =>
    rw [objects]
    exact Nat.le_of_eq ((rest_observeAll _ _).1.trans (Arena.size_modify _ _ _)).symm
  | observes _ rests _ objects =>
    rw [objects]
    exact Nat.le_trans rests.size (Nat.le_of_eq (rest_observeAll _ _).1.symm)

end Machine
end DataBinding
