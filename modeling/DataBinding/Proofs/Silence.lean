import DataBinding.Proofs.Reachable

/-! Subscribers that nobody owns any more. A dependency list does not keep its subscribers
alive, but a call in progress does: a notification goes on to tell all that it began with,
also those that were given up in the meantime. Once the calls that keep a subscriber have
ended it is gone for good, and its reaction never starts again. -/
namespace DataBinding
namespace Machine
open World

variable {σ : Type}

/-- Starting a program keeps nobody alive. -/
theorem alive_start {m : Machine σ} (host : σ) (p : Program σ)
    (alive : (start { m with host := host } p).alive s = true) : m.alive s = true := by
  rcases alive_iff.mp alive with held | ⟨f, member, keeps⟩
  · exact alive_iff.mpr (.inl held)
  · obtain rfl := List.mem_singleton.mp member
    cases keeps

/-- Nobody comes back to life in a step. -/
theorem gone_step {m : Machine σ} (sound : m.Sound) (known : m.world.Known s)
    (gone : m.alive s = false) : m.step.alive s = false := by
  have turn := step_turn (m := m) fun _ => sound.known
  rw [← Bool.not_eq_true]
  intro alive
  rcases turn.alive alive with before | ⟨unknown, -⟩
  · rw [gone] at before
    cases before
  · exact unknown known

/-- Only the living are told of changes. -/
theorem alive_of_told {m : Machine σ} (sound : m.Sound) (told : m.told? = some s) :
    m.alive s = true := by
  unfold told? at told
  split at told
  · rename_i list first rest below due
    obtain rfl := Option.some.inj told
    have member : Frame.notifying list (first :: rest) ∈ m.frames := by simp [due]
    exact alive_iff.mpr (.inr ⟨_, member, sound.waits member List.mem_cons_self⟩)
  · split at told
    · rename_i alive
      obtain rfl := Option.some.inj told
      exact alive
    · cases told
  · cases told

theorem told_of_fires {m : Machine σ} (fires : m.fires? = some (s, x, v)) : m.told? = some s := by
  simp only [fires?, Option.bind_eq_bind, Option.bind_eq_some_iff] at fires
  obtain ⟨t, told, y, -, same⟩ := fires
  split at same
  · cases same
  · cases same
    exact told

theorem watcher_of_fires {m : Machine σ} (fires : m.fires? = some (s, x, v)) :
    m.world.watcher? s = some x := by
  simp only [fires?, Option.bind_eq_bind, Option.bind_eq_some_iff] at fires
  obtain ⟨t, -, y, found, same⟩ := fires
  split at same
  · cases same
  · cases same
    exact found

end Machine
end DataBinding
