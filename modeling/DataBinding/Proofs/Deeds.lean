import DataBinding.Proofs.Coherence

/-! What a step does, apart from the calls in progress. The turns of a step tell which calls begin and
whom they keep alive; here a step is told by what becomes of the world and of the callbacks, so that
what holds of each of these deeds holds of a step. -/
namespace DataBinding
namespace Machine
open World

variable {σ : Type} {m : Machine σ}

/-- What a step does, whatever calls are in progress after it. -/
inductive Deed (m : Machine σ) : Machine σ → Prop where
  /-- Calls begin or end, or the host keeps something. -/
  | rests {m' : Machine σ} (world : m'.world = m.world) (callbacks : m'.callbacks = m.callbacks) :
      Deed m m'
  /-- The collecting subscribers are hidden, or scopes end. -/
  | hides {m' : Machine σ} (targets : List (Option SubscriberId))
      (fewer : ∀ s, some s ∈ targets → some s ∈ m.world.targets)
      (world : m'.world = { m.world with targets := targets })
      (callbacks : m'.callbacks = m.callbacks) : Deed m m'
  /-- A request that runs no callback is carried out. -/
  | acts {m' : Machine σ} (due : m.frames = .program (.call (.act a) next) :: below)
      (done : m.world.perform a = some (m'.world, reply)) (callbacks : m'.callbacks = m.callbacks) :
      Deed m m'
  /-- A subscriber is made that runs the callback which is handed over with it. -/
  | subscribes {m' : Machine σ} (callback : Value → Program σ)
      (world : m'.world = (m.world.newSubscriber (.host ⟨m.callbacks.size⟩)).1.hold
        ⟨m.world.subscribers.size⟩)
      (callbacks : m'.callbacks = m.callbacks.push callback) : Deed m m'
  | watches {m' : Machine σ} (root : ObjectId) (key : String) (callback : Value → Program σ)
      (world : m'.world = (m.world.watch root key (.callback ⟨m.callbacks.size⟩)).1.hold
        (m.world.watch root key (.callback ⟨m.callbacks.size⟩)).2)
      (callbacks : m'.callbacks = m.callbacks.push callback) : Deed m m'
  | listens {m' : Machine σ} (n : NodeId) (callback : Value → Program σ)
      (world : m'.world = m.world.listen n (.host ⟨m.callbacks.size⟩))
      (callbacks : m'.callbacks = m.callbacks.push callback) : Deed m m'
  | registers {m' : Machine σ} (d : DepId) (s : SubscriberId)
      (due : m.frames = .program (.call (.register d s) next) :: below)
      (alive : m.alive s = true) (world : m'.world = m.world.register d s)
      (callbacks : m'.callbacks = m.callbacks) : Deed m m'
  | enters {m' : Machine σ} (s : SubscriberId) (due : m.frames = .program (.call r next) :: below)
      (asked : r = .enter s ∨ ∃ body, r = .collecting s body)
      (alive : m.alive s = true) (world : m'.world = m.world.enter (some s))
      (callbacks : m'.callbacks = m.callbacks) : Deed m m'
  /-- Somebody types into a form control. -/
  | types {m' : Machine σ} (n : NodeId) (text : String)
      (world : m'.world = m.world.setControlValue n text)
      (callbacks : m'.callbacks = m.callbacks) : Deed m m'
  | writes {frames : List (Frame σ)}
      (calling : m.writing? = some ⟨{ m with frames := frames }, o, key, v⟩) :
      Deed m (write { m with frames := frames } o key v)
  | notifies {frames : List (Frame σ)} (d : DepId) : Deed m (notify { m with frames := frames } d)
  | tells {frames : List (Frame σ)} (told : m.told? = some s) :
      Deed m (update { m with frames := frames } s)

private theorem deed_invoke (c : CallbackId) (v : Value) (frames : List (Frame σ)) :
    Deed m (invoke { m with frames := frames } c v) := by
  rcases invoke_cases { m with frames := frames } c v with same | ⟨p, same⟩
  · exact .rests (by rw [same]) (by rw [same])
  · exact .rests (by rw [same]; rfl) (by rw [same]; rfl)

private theorem deed_breakOff (why : Failure) (frames : List (Frame σ)) :
    Deed m (breakOff { m with frames := frames } why) :=
  .hides _ (fun _ => List.mem_of_mem_drop) (world_breakOff _ _) rfl

private theorem deed_request {r : Request (Program σ)}
    (due : m.frames = .program (.call r next) :: below) :
    Deed m (request { m with frames := below } next r) := by
  -- A request about something that is gone is answered and does nothing.
  have missing : Deed m { m with frames := .program (next .missing) :: below } := .rests rfl rfl
  cases r with
  | act a =>
    simp only [request]
    split
    · exact deed_breakOff .endless below
    · rename_i w reply done
      exact .acts due done rfl
  | subscribe callback => exact .subscribes callback rfl rfl
  | watch root key callback => exact .watches root key callback rfl rfl
  | listen n callback => exact .listens n callback rfl rfl
  | register d s =>
    simp only [request]
    split
    · rename_i alive
      exact .registers d s due (alive_of_below due alive) rfl rfl
    · exact missing
  | enter s =>
    simp only [request]
    split
    · rename_i alive
      exact .enters s due (.inl rfl) (alive_of_below due alive) rfl rfl
    · exact missing
  | write o key v => exact .writes (by rw [writing?, due])
  | assign vm key v =>
    simp only [request]
    split
    · exact missing
    · rename_i view found
      refine .writes ?_
      rw [writing?, due]
      exact Option.map_eq_some_iff.mpr ⟨view, found, rfl⟩
  | notify d => exact .notifies d
  | update s =>
    simp only [request]
    split
    · rename_i alive
      exact .tells (by simp [told?, due, alive_of_below due alive])
    · exact missing
  | dispatch n => exact .rests rfl rfl
  | input n text => exact .types n text rfl rfl
  | collecting s body =>
    simp only [request]
    split
    · rename_i alive
      exact .enters s due (.inr ⟨body, rfl⟩) (alive_of_below due alive) rfl rfl
    · exact missing
  | untracked body => exact .hides (none :: m.world.targets) (by simp) rfl rfl
  | panic message => exact deed_breakOff (.panic message) below

/-- Every step is one of the deeds. -/
theorem step_deed (m : Machine σ) : Deed m m.step := by
  cases due : m.frames with
  | nil => exact .rests (by simp [step, due]) (by simp [step, due])
  | cons top below =>
    simp only [step, due]
    cases top with
    | program p =>
      cases p with
      | done | look | keep => exact .rests rfl rfl
      | call r next => exact deed_request due
    | notifying told rest =>
      cases rest with
      | nil => exact .rests rfl rfl
      | cons s untold => exact .tells (by rw [told?, due])
    | dispatching n rest =>
      cases rest with
      | nil => exact .rests rfl rfl
      | cons l more =>
        cases l with
        | host c => exact deed_invoke c _ (.dispatching n more :: below)
        | writeBack data key => exact .writes (by rw [writing?, due]; rfl)
    | scope => exact .hides m.world.targets.tail (fun _ => List.mem_of_mem_tail) rfl rfl
    | keeping kept => exact .rests rfl rfl

/-- A request that runs no callback is carried out by the step, or it breaks everything off. -/
theorem step_of_acting (due : m.frames = .program (.call (.act a) next) :: below) :
    (∃ reply, m.world.perform a = some (m.step.world, reply)) ∨
      m.world.perform a = none ∧ ∃ targets, m.step.world = { m.world with targets := targets } := by
  simp only [step, due, request]
  split
  · rename_i endless
    exact .inr ⟨endless, _, world_breakOff _ _⟩
  · rename_i w reply done
    exact .inl ⟨reply, done⟩

end Machine
end DataBinding
