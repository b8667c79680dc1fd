import DataBinding.Machine
import DataBinding.Proofs.Holding

/-! What one step of the machine can do. Most steps are calm: they make moves and tell
nobody. The others tell one subscriber, begin a notification, store a value in a tracked
property, or break everything off. -/
namespace DataBinding

variable {σ : Type}

/-- Whom a call in progress is still going to tell. -/
def Frame.pending : Frame σ → List SubscriberId
  | .notifying _ rest => rest
  | _ => []

/-- Whether a call in progress is a scope, with an entry of its own on the stack of collecting
subscribers. -/
def Frame.scoped : Frame σ → Bool
  | .scope => true
  | _ => false

namespace Machine
open World

/-- The subscriber that the next step tells of a change. -/
def told? (m : Machine σ) : Option SubscriberId :=
  match m.frames with
  | .notifying _ (s :: _) :: _ => some s
  | .program (.call (.update s) _) :: _ => if m.alive s then some s else none
  | _ => none

/-- The frames are those of a call that is about to be made in place of the top frame; they
keep nobody alive who was not. -/
structure Calls (m : Machine σ) (top : Frame σ) (added below : List (Frame σ)) : Prop where
  due : m.frames = top :: below
  kept : ∀ f ∈ added, ∀ s, f.keeps s = true → m.alive s = true

/-- What one step does. -/
inductive Turn (m : Machine σ) : Machine σ → Prop where
  /-- Nothing is in progress. -/
  | still (idle : m.frames = []) : Turn m m
  /-- Nobody is told, and no value of a tracked property changes. -/
  | calm {m' : Machine σ} (calls : m.Calls top added below) (quiet : top.pending = [])
      (nobody : ∀ f ∈ added, f.pending = []) (moves : Moves m.world m'.world)
      (entrusts : Entrusts m.world m'.world)
      (collecting : ∀ s, some s ∈ m'.world.targets → m.alive s = true)
      (frames : m'.frames = added ++ below) (failure : m'.failure = m.failure) : Turn m m'
  /-- One subscriber is told. -/
  | tell (calls : m.Calls top added below) (told : m.told? = some s)
      (pending : ∀ t ∈ top.pending, t = s ∨ ∃ f ∈ added, t ∈ f.pending)
      (still : ∀ f ∈ added, ∀ t ∈ f.pending,
        t ∈ top.pending ∧ (top.keeps t = true → f.keeps t = true)) :
      Turn m (update { m with frames := added ++ below } s)
  /-- All that are in a list begin to be told. -/
  | notify (calls : m.Calls top added below) (quiet : top.pending = [])
      (nobody : ∀ f ∈ added, f.pending = []) (d : DepId) :
      Turn m (notify { m with frames := added ++ below } d)
  /-- A tracked property changes, and its subscribers begin to be told. -/
  | store (calls : m.Calls top added below) (quiet : top.pending = [])
      (nobody : ∀ f ∈ added, f.pending = []) (found : m.world.slot? o key = some slot) (tracked : slot.dep = some d)
      (changes : slot.value.same value = false) :
      Turn m (notify { m with
        world := (m.world.modifyObject o (·.replace key value)).observe value
        frames := added ++ below } d)
  /-- Everything in progress is given up. -/
  | broken {m' : Machine σ} (moves : Moves m.world m'.world)
      (custody : ∀ s, m'.world.owners s = m.world.owners s)
      (collecting : m'.world.targets <:+ m.world.targets)
      (frames : m'.frames = []) (failure : m'.failure ≠ none) : Turn m m'

theorem alive_iff {m : Machine σ} :
    m.alive s = true ↔ m.world.holds s = true ∨ ∃ f ∈ m.frames, f.keeps s = true := by
  simp only [alive, Bool.or_eq_true, List.any_eq_true]

theorem alive_of_target {m : Machine σ} (collecting : some s ∈ m.world.targets) :
    m.alive s = true :=
  alive_iff.mpr (.inl (holds_iff.mpr (.inr collecting)))

/-- Running a callback begins a program, or does nothing if there is no such callback. -/
theorem invoke_cases (m : Machine σ) (c : CallbackId) (v : Value) :
    m.invoke c v = m ∨ ∃ p, m.invoke c v = m.push (.program p) := by
  unfold invoke
  split
  · exact .inl rfl
  · exact .inr ⟨_, rfl⟩

/-- A write to a tracked property with another value stores it and begins to tell; any
other write makes moves and tells nobody. -/
theorem write_cases (m : Machine σ) (o : ObjectId) (key : String) (value : Value) :
    (∃ w, Moves m.world w ∧ w.custody = m.world.custody ∧
      m.write o key value = { m with world := w }) ∨
    ∃ slot d, m.world.slot? o key = some slot ∧ slot.dep = some d ∧
      slot.value.same value = false ∧
      m.write o key value = Machine.notify
        { m with world := (m.world.modifyObject o (·.replace key value)).observe value } d := by
  have custody := custody_write m.world o key value
  cases written : m.world.write o key value with
  | mk w d? =>
    rw [written] at custody
    cases d? with
    | none => exact .inl ⟨w, moves_write written, custody, by rw [write, written]⟩
    | some d =>
      right
      obtain ⟨slot, found, tracked, changes, rfl⟩ := write_eq_some written
      exact ⟨slot, d, found, tracked, changes, by rw [write, written]⟩

/-- The world when a panic has come up through these frames: each scope has taken its entry off the
stack of collecting subscribers. -/
def unwind (frames : List (Frame σ)) (w : World) : World :=
  frames.foldl (fun w f => match f with | .scope => w.leave | _ => w) w

theorem unwind_eq (frames : List (Frame σ)) (w : World) :
    unwind frames w = { w with targets := w.targets.drop (frames.countP (·.scoped)) } := by
  induction frames generalizing w with
  | nil => rfl
  | cons f rest ih =>
    rw [unwind, List.foldl_cons, ← unwind, ih]
    cases f <;> simp [Frame.scoped, leave]

section Step

variable {m : Machine σ} {top : Frame σ} {below : List (Frame σ)}

/-- Frames that keep nobody alive need no reason to. -/
private theorem calls_of_none (due : m.frames = top :: below)
    (none : ∀ f ∈ added, ∀ s, f.keeps s = false) : m.Calls top added below where
  due := due
  kept f member s keeps := by
    rw [none f member s] at keeps
    cases keeps

/-- A call may keep whoever is alive while a program waits for it. -/
private theorem calls_keeping (due : m.frames = top :: below) (p : Program σ)
    (alive : ∀ s ∈ kept, m.alive s = true) :
    m.Calls top [.keeping kept, .program p] below where
  due := due
  kept f member s keeps := by
    rcases List.mem_cons.mp member with rfl | rest
    · exact alive s (List.contains_iff_mem.mp keeps)
    · obtain rfl := List.mem_singleton.mp rest
      cases keeps

/-- A step that leaves everybody with the owners and on the stack where they were. -/
private theorem calm_of_custody {m' : Machine σ} (calls : m.Calls top added below)
    (quiet : top.pending = []) (nobody : ∀ f ∈ added, f.pending = [])
    (moves : Moves m.world m'.world) (custody : m'.world.custody = m.world.custody)
    (frames : m'.frames = added ++ below) (failure : m'.failure = m.failure) : Turn m m' :=
  .calm calls quiet nobody moves (entrusts_of_custody custody)
    (fun _ collecting => alive_of_target (targets_of_custody custody ▸ collecting)) frames failure

/-- The stack of collecting subscribers changes; whoever is on it then was alive. -/
private theorem turn_collect {m' : Machine σ} (known : ∀ s, m.alive s = true → m.world.Known s)
    (calls : m.Calls top added below) (quiet : top.pending = [])
    (nobody : ∀ f ∈ added, f.pending = []) (targets : List (Option SubscriberId))
    (alive : ∀ s, some s ∈ targets → m.alive s = true)
    (world : m'.world = { m.world with targets := targets }) (frames : m'.frames = added ++ below)
    (failure : m'.failure = m.failure) : Turn m m' := by
  refine .calm calls quiet nobody ?_ ?_ ?_ frames failure
  · rw [world]
    exact .single (.stack m.world targets fun s member => .inr (known s (alive s member)))
  · rw [world]
    exact fun _ => .inl (Nat.le_refl _)
  · rw [world]
    exact alive

/-- An entry comes onto the stack of collecting subscribers; whoever collects by it was alive. -/
private theorem turn_enter {m' : Machine σ} (known : ∀ s, m.alive s = true → m.world.Known s)
    (calls : m.Calls top added below) (quiet : top.pending = [])
    (nobody : ∀ f ∈ added, f.pending = []) (entry : Option SubscriberId)
    (alive : ∀ s, entry = some s → m.alive s = true) (world : m'.world = m.world.enter entry)
    (frames : m'.frames = added ++ below) (failure : m'.failure = m.failure) : Turn m m' := by
  refine turn_collect known calls quiet nobody _ (fun s member => ?_) world frames failure
  rcases List.mem_cons.mp member with same | rest
  · exact alive s same.symm
  · exact alive_of_target rest

private theorem turn_write (calls : m.Calls top added below) (quiet : top.pending = [])
    (nobody : ∀ f ∈ added, f.pending = []) (o : ObjectId) (key : String) (value : Value) :
    Turn m (write { m with frames := added ++ below } o key value) := by
  obtain ⟨w, moves, custody, written⟩ | ⟨slot, d, found, tracked, changes, written⟩ :=
    write_cases { m with frames := added ++ below } o key value
  · rw [written]
    exact calm_of_custody calls quiet nobody moves custody rfl rfl
  · rw [written]
    exact .store calls quiet nobody found tracked changes

private theorem turn_invoke (calls : m.Calls top added below) (quiet : top.pending = [])
    (nobody : ∀ f ∈ added, f.pending = []) (c : CallbackId) (v : Value) :
    Turn m (invoke { m with frames := added ++ below } c v) := by
  rcases invoke_cases { m with frames := added ++ below } c v with same | ⟨p, same⟩
  · rw [same]
    exact calm_of_custody calls quiet nobody .refl rfl rfl rfl
  · have begun : m.Calls top (.program p :: added) below := by
      refine ⟨calls.due, fun f member s keeps => ?_⟩
      rcases List.mem_cons.mp member with rfl | rest
      · cases keeps
      · exact calls.kept f rest s keeps
    rw [same]
    refine calm_of_custody begun quiet ?_ .refl rfl rfl rfl
    intro f member
    rcases List.mem_cons.mp member with rfl | rest
    · rfl
    · exact nobody f rest

/-- A subscriber is added, and the host program holds it. -/
private theorem turn_hold {m' : Machine σ} (calls : m.Calls top added below)
    (quiet : top.pending = []) (nobody : ∀ f ∈ added, f.pending = []) {w : World}
    (moves : Moves m.world w) (custody : w.custody = m.world.custody)
    (added' : w.subscribers.size = m.world.subscribers.size + 1)
    (world : m'.world = w.hold ⟨m.world.subscribers.size⟩)
    (frames : m'.frames = added ++ below) (failure : m'.failure = m.failure) : Turn m m' := by
  refine .calm calls quiet nobody ?_ ?_ ?_ frames failure
  · exact world ▸ moves.tail (.custody _ _ _ _ _)
  · intro s
    rw [world, owners_hold, owners_of_custody custody]
    split
    · rename_i new
      refine .inr ⟨?_, ?_, Nat.le_refl _⟩
      · simp [Known, ← new]
      · simp only [Known, hold, added', ← new]
        exact Nat.lt_succ_self _
    · exact .inl (Nat.le_refl _)
  · intro s collecting
    rw [world] at collecting
    exact alive_of_target (targets_of_custody custody ▸ collecting)

/-- Breaking off takes one entry off the stack of collecting subscribers for each scope, and changes
nothing else in the world. -/
theorem world_breakOff (m : Machine σ) (why : Failure) :
    (m.breakOff why).world =
      { m.world with targets := m.world.targets.drop (m.frames.countP (·.scoped)) } :=
  unwind_eq m.frames m.world

private theorem turn_breakOff (m : Machine σ) (below : List (Frame σ)) (why : Failure) :
    Turn m (breakOff { m with frames := below } why) := by
  have world := world_breakOff { m with frames := below } why
  refine .broken ?_ (fun s => ?_) ?_ rfl (by simp [breakOff])
  · rw [world]
    exact .single (.stack m.world _ fun s member => .inl (List.mem_of_mem_drop member))
  · rw [world]
    rfl
  · rw [world]
    exact List.drop_suffix _ _

/-- Dropping the top frame leaves nobody alive who was not. -/
theorem alive_of_below (due : m.frames = top :: below)
    (alive : Machine.alive { m with frames := below } s = true) : m.alive s = true := by
  rcases alive_iff.mp alive with held | ⟨f, member, keeps⟩
  · exact alive_iff.mpr (.inl held)
  · exact alive_iff.mpr (.inr ⟨f, due ▸ List.mem_cons_of_mem _ member, keeps⟩)

private theorem turn_request (known : ∀ s, m.alive s = true → m.world.Known s)
    (r : Request (Program σ)) (next : Reply → Program σ)
    (due : m.frames = .program (.call r next) :: below) :
    Turn m (request { m with frames := below } next r) := by
  have program : ∀ p : Program σ, m.Calls (.program (.call r next)) [.program p] below :=
    fun p => calls_of_none due (by simp [Frame.keeps])
  have scope : ∀ body : Program σ, m.Calls (.program (.call r next))
      [.program body, .scope, .program (next .done)] below :=
    fun body => calls_of_none due (by simp [Frame.keeps])
  have nobody : ∀ p : Program σ, ∀ f ∈ [Frame.program p], f.pending = [] := by
    simp [Frame.pending]
  -- A request about something that is gone is answered and changes nothing.
  have missing : Turn m { m with frames := .program (next .missing) :: below } :=
    calm_of_custody (program _) rfl (nobody _) .refl rfl rfl rfl
  cases r with
  | act a =>
    simp only [request]
    split
    · exact turn_breakOff m below .endless
    · rename_i w reply done
      refine .calm (program _) rfl (nobody _) (moves_perform done) (entrusts_perform done) ?_ rfl rfl
      intro s collecting
      exact alive_of_target ((targets_perform done).subset collecting)
  | subscribe callback =>
    exact turn_hold (program _) rfl (nobody _) (.single (.subscribe m.world _)) rfl (by simp [newSubscriber])
      rfl rfl rfl
  | watch root key callback =>
    refine turn_hold (program _) rfl (nobody _) (.single (.watch m.world root key _))
      (custody_watch m.world root key _) ?_ rfl rfl rfl
    simp [subscribers_watch]
  | listen n callback =>
    exact calm_of_custody (program _) rfl (nobody _) (moves_listen m.world n _) rfl rfl rfl
  | register d s =>
    simp only [request]
    split
    · rename_i alive
      have origin : m.world.Known s := known s (alive_of_below due alive)
      exact calm_of_custody (program _) rfl (nobody _) (.single (.register d (.inr origin))) rfl rfl
        rfl
    · exact missing
  | enter s =>
    simp only [request]
    split
    · rename_i alive
      have held : m.alive s = true := alive_of_below due alive
      exact turn_enter known (program _) rfl (nobody _) (some s)
        (fun t same => Option.some.inj same ▸ held) rfl rfl rfl
    · exact missing
  | write o key v => exact turn_write (program _) rfl (nobody _) o key v
  | assign vm key v =>
    simp only [request]
    split
    · exact missing
    · rename_i view found
      have calls : m.Calls (.program (.call (.assign vm key v) next))
          [.keeping view.watchers, .program (next .done)] below :=
        calls_keeping due _ fun s listed => alive_iff.mpr (.inl (holds_of_viewModel found listed))
      exact turn_write calls rfl (by simp [Frame.pending]) view.data key v
  | notify d => exact .notify (program _) rfl (nobody _) d
  | update s =>
    simp only [request]
    split
    · rename_i alive
      have held : m.alive s = true := alive_of_below due alive
      have calls : m.Calls (.program (.call (.update s) next))
          [.keeping [s], .program (next .done)] below :=
        calls_keeping due _ fun t listed => List.mem_singleton.mp listed ▸ held
      have told : m.told? = some s := by simp [told?, due, held]
      exact .tell calls told (by simp [Frame.pending]) (by simp [Frame.pending])
    · exact missing
  | dispatch n =>
    have calls : m.Calls (.program (.call (.dispatch n) next))
        [.dispatching n (m.world.listeners n), .program (next .done)] below :=
      calls_of_none due (by simp [Frame.keeps])
    exact calm_of_custody calls rfl (by simp [Frame.pending]) .refl rfl rfl rfl
  | input n text =>
    have calls : m.Calls (.program (.call (.input n text) next))
        [.dispatching n ((m.world.setControlValue n text).listeners n), .program (next .done)] below :=
      calls_of_none due (by simp [Frame.keeps])
    exact calm_of_custody calls rfl (by simp [Frame.pending])
      (moves_setControlValue m.world n text) rfl rfl rfl
  | collecting s body =>
    simp only [request]
    split
    · rename_i alive
      have held : m.alive s = true := alive_of_below due alive
      exact turn_enter known (scope body) rfl (by simp [Frame.pending]) (some s)
        (fun t same => Option.some.inj same ▸ held) rfl rfl rfl
    · exact missing
  | untracked body =>
    exact turn_enter known (scope body) rfl (by simp [Frame.pending]) none (by simp) rfl rfl rfl
  | panic message => exact turn_breakOff m below (.panic message)

/-- One step of a machine in which all that is alive exists is one of the turns. -/
theorem step_turn (known : ∀ s, m.alive s = true → m.world.Known s) : Turn m m.step := by
  cases due : m.frames with
  | nil =>
    have same : m.step = m := by simp [step, due]
    rw [same]
    exact .still due
  | cons top below =>
    -- A frame that is done, or goes on as a program, tells nobody.
    have gone : m.Calls top [] below := calls_of_none due (by simp)
    have ends : top.pending = [] → Turn m { m with frames := below } := fun quiet =>
      calm_of_custody gone quiet (by simp) .refl rfl rfl rfl
    have goes : ∀ (p : Program σ) (host : σ), top.pending = [] →
        Turn m { m with host := host, frames := .program p :: below } := by
      intro p host quiet
      have calls : m.Calls top [.program p] below := calls_of_none due (by simp [Frame.keeps])
      exact calm_of_custody calls quiet (by simp [Frame.pending]) .refl rfl rfl rfl
    simp only [step, due]
    cases top with
    | program p =>
      cases p with
      | done => exact ends rfl
      | look next => exact goes _ _ rfl
      | keep change next => exact goes _ _ rfl
      | call r next => exact turn_request known r next due
    | notifying told rest =>
      cases rest with
      | nil => exact ends rfl
      | cons s untold =>
        have calls : m.Calls (.notifying told (s :: untold)) [.notifying told untold] below := by
          refine ⟨due, fun f member t keeps => ?_⟩
          obtain rfl := List.mem_singleton.mp member
          exact alive_iff.mpr (.inr ⟨.notifying told (s :: untold), by simp [due], keeps⟩)
        refine .tell calls (by simp [told?, due]) ?_ ?_
        · intro t member
          rcases List.mem_cons.mp member with rfl | later
          · exact .inl rfl
          · exact .inr ⟨_, List.mem_singleton_self _, later⟩
        · intro f member t waits
          obtain rfl := List.mem_singleton.mp member
          exact ⟨List.mem_cons_of_mem _ waits, fun keeps => keeps⟩
    | dispatching n rest =>
      cases rest with
      | nil => exact ends rfl
      | cons l more =>
        cases l with
        | host c =>
          have calls : m.Calls (.dispatching n (.host c :: more)) [.dispatching n more] below :=
            calls_of_none due (by simp [Frame.keeps])
          exact turn_invoke calls rfl (by simp [Frame.pending]) c _
        | writeBack data key =>
          have calls : m.Calls (.dispatching n (.writeBack data key :: more))
              [.dispatching n more] below :=
            calls_of_none due (by simp [Frame.keeps])
          exact turn_write calls rfl (by simp [Frame.pending]) data key _
    | scope =>
      refine turn_collect known gone rfl (by simp) _ (fun t member => ?_) rfl rfl rfl
      exact alive_of_target (List.mem_of_mem_tail member)
    | keeping kept => exact ends rfl

end Step

/-- The watcher whose reaction the next step starts, and the value that it reacts to. -/
def fires? (m : Machine σ) : Option (SubscriberId × Watcher × Value) := do
  let s ← m.told?
  let watcher ← m.world.watcher? s
  let value := m.world.peek watcher.root watcher.key
  if watcher.cached.same value then none else some (s, watcher, value)

/-- Telling a subscriber begins programs at most, unless it is a watcher that remembers
another value: that one remembers the new value and reacts. -/
theorem update_cases (m : Machine σ) (s : SubscriberId) :
    (∃ added, m.update s = { m with frames := added ++ m.frames } ∧
      (∀ f ∈ added, ∃ p, f = Frame.program p) ∧
      ∀ x, m.world.watcher? s = some x → x.cached.same (m.world.peek x.root x.key) = true) ∨
    ∃ x added, m.world.watcher? s = some x ∧
      x.cached.same (m.world.peek x.root x.key) = false ∧
      (∀ f ∈ added, ∃ p, f = Frame.program p) ∧
      m.update s = { m with
        world := (m.world.remember s (m.world.peek x.root x.key)).react x.reaction
          (m.world.peek x.root x.key)
        frames := added ++ m.frames } := by
  have begun : ∀ (m : Machine σ) (c : CallbackId) (v : Value), ∃ added,
      m.invoke c v = { m with frames := added ++ m.frames } ∧
        ∀ f ∈ added, ∃ p, f = Frame.program p := by
    intro m c v
    rcases invoke_cases m c v with same | ⟨p, same⟩
    · exact ⟨[], same, by simp⟩
    · exact ⟨[.program p], same, by simp⟩
  unfold update
  cases found : m.world.subscriber? s with
  | none => exact .inl ⟨[], rfl, by simp, by simp [watcher?, found]⟩
  | some subscriber =>
    cases subscriber with
    | host c =>
      obtain ⟨added, same, programs⟩ := begun m c .undefined
      exact .inl ⟨added, same, programs, by simp [watcher?, found, Subscriber.watcher?]⟩
    | watcher x =>
      have watching : m.world.watcher? s = some x := by
        simp [watcher?, found, Subscriber.watcher?]
      simp only [refresh, read_enter_none, leave_enter]
      cases remembers : x.cached.same (m.world.peek x.root x.key) with
      | true =>
        refine .inl ⟨[], by simp, by simp, ?_⟩
        intro y same
        obtain rfl : x = y := Option.some.inj (watching.symm.trans same)
        exact remembers
      | false =>
        right
        simp only [Bool.false_eq_true, if_false]
        cases reacts : x.reaction with
        | callback c =>
          obtain ⟨added, same, programs⟩ := begun
            { m with world := m.world.remember s (m.world.peek x.root x.key) } c
            (m.world.peek x.root x.key)
          exact ⟨x, added, watching, remembers, programs, by rw [reacts]; exact same⟩
        | showText n => exact ⟨x, [], watching, remembers, by simp, by rw [reacts]; rfl⟩
        | showValue n => exact ⟨x, [], watching, remembers, by simp, by rw [reacts]; rfl⟩

/-- The step that is due to tell a subscriber does so. -/
theorem step_of_told {m : Machine σ} (told : m.told? = some s) :
    ∃ frames, m.step = update { m with frames := frames } s := by
  unfold told? at told
  split at told
  · rename_i due
    obtain rfl := Option.some.inj told
    exact ⟨_, by simp only [step, due]; rfl⟩
  · rename_i t next below due
    split at told
    · rename_i alive
      obtain rfl := Option.some.inj told
      have still : Machine.alive { m with frames := below } t = true := by
        rcases alive_iff.mp alive with held | ⟨f, member, keeps⟩
        · exact alive_iff.mpr (.inl held)
        · rw [due] at member
          rcases List.mem_cons.mp member with rfl | rest
          · cases keeps
          · exact alive_iff.mpr (.inr ⟨f, rest, keeps⟩)
      exact ⟨_, by simp only [step, due, request, still, if_true]; rfl⟩
    · cases told
  · cases told

/-- A step that is due to tell a subscriber changes the world only if it starts a reaction:
the watcher then remembers the new value, and the page follows if that is the reaction. -/
theorem world_of_told {m : Machine σ} (told : m.told? = some s) :
    m.fires? = none ∧ m.step.world = m.world ∨
    ∃ x v, m.fires? = some (s, x, v) ∧
      m.step.world = (m.world.remember s v).react x.reaction v := by
  obtain ⟨frames, same⟩ := step_of_told told
  rcases update_cases { m with frames := frames } s with
    ⟨added, stepped, -, current⟩ | ⟨x, added, found, remembers, -, stepped⟩
  · left
    refine ⟨?_, by rw [same, stepped]⟩
    cases watching : m.world.watcher? s with
    | none => simp [fires?, told, watching]
    | some x => simp [fires?, told, watching, current x watching]
  · right
    refine ⟨x, m.world.peek x.root x.key, ?_, by rw [same, stepped]⟩
    have found : m.world.watcher? s = some x := found
    simp [fires?, told, found, remembers]

end Machine
end DataBinding
