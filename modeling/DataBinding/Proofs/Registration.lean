import DataBinding.Proofs.Enlisting
import DataBinding.Proofs.Silence

/-! Exact registration. In a run in which the host program itself hands no watcher to a list or to
the stack of collecting subscribers, every watcher that is alive has one entry in the list of its
own property, if that was tracked when the watcher was made, and none in any other list. -/
namespace DataBinding

/-- The subscriber that a request hands to a list or to the stack. -/
def Request.handed? {P : Type} : Request P → Option SubscriberId
  | .register _ s => some s
  | .enter s => some s
  | .collecting s _ => some s
  | _ => none

namespace World

/-- The property that a watcher watches. -/
def watches? (w : World) (s : SubscriberId) : Option (ObjectId × String) :=
  (w.watcher? s).map fun x => (x.root, x.key)

theorem watches?_eq_some_iff {w : World} :
    w.watches? s = some (o, key) ↔ ∃ x, w.watcher? s = some x ∧ x.root = o ∧ x.key = key := by
  simp [watches?, Option.map_eq_some_iff]

/-- What a watcher remembers does not matter for what it watches. -/
theorem watches?_remember (w : World) (s t : SubscriberId) (value : Value) :
    (w.remember s value).watches? t = w.watches? t := by
  rw [watches?, watches?, watcher?_remember]
  split
  · subst t
    cases w.watcher? s <;> rfl
  · rfl

end World

namespace Machine
open World

variable {σ : Type}

/-- The subscriber that the next step hands to a list or to the stack. -/
def handed? (m : Machine σ) : Option SubscriberId :=
  match m.frames with
  | .program (.call r _) :: _ => r.handed?
  | _ => none

/-- What a step from a world to a machine does to the entries of watchers that are alive. -/
structure Registers (w : World) (m : Machine σ) : Prop where
  place : w.Known s → m.world.watches? s = w.watches? s
  /-- No watcher comes onto the stack of collecting subscribers. -/
  stack : some s ∈ m.world.targets → m.world.watches? s = some p → some s ∈ w.targets
  /-- A watcher that is not on it has the entries that it had. -/
  kept : w.watches? s = some p → some s ∉ w.targets → m.alive s = true →
    (m.world.entries d).count s = (w.entries d).count s
  /-- A new one has an entry in the list of what it watches, and no other. -/
  fresh : ¬w.Known s → m.world.watches? s = some (o, key) →
    (m.world.entries d).count s = if (m.world.properties o).dep? key = some d then 1 else 0

theorem registers_of_enlists {w : World} {m : Machine σ} (enlists : Enlists w m.world) :
    Registers w m where
  place known := by
    obtain ⟨x, found⟩ := known_iff.mp known
    have later := enlists.moves.grows.subscriber found
    rw [watches?, watches?, watcher?, watcher?, found, later]
  stack collecting found := by
    obtain ⟨x, present, -, -⟩ := watches?_eq_some_iff.mp found
    exact enlists.stack collecting present
  kept found away _ := by
    obtain ⟨x, present, -, -⟩ := watches?_eq_some_iff.mp found
    exact enlists.kept present away
  fresh unknown found := by
    obtain ⟨x, present, rfl, rfl⟩ := watches?_eq_some_iff.mp found
    exact enlists.fresh unknown present

/-- The lists are left alone, and so is what the subscribers watch. -/
theorem registers_of_same {w : World} {m : Machine σ}
    (size : m.world.subscribers.size = w.subscribers.size)
    (watches : ∀ s, m.world.watches? s = w.watches? s)
    (entries : ∀ d, m.world.entries d = w.entries d)
    (targets : ∀ s, some s ∈ m.world.targets → some s ∈ w.targets) : Registers w m where
  place _ := watches _
  stack collecting _ := targets _ collecting
  kept _ _ _ := by rw [entries]
  fresh unknown found := by
    obtain ⟨x, present, -, -⟩ := watches?_eq_some_iff.mp found
    have known := known_of_watcher present
    rw [Known, size] at known
    exact absurd known unknown

theorem registers_of_world {w : World} {m : Machine σ} (same : m.world = w) : Registers w m :=
  registers_of_same (by rw [same]) (by simp [same]) (by simp [same]) (by simp [same])

/-- A notification takes those off the list that are gone. -/
theorem Registers.notify {w : World} {m : Machine σ} (registers : Registers w m)
    (size : m.world.subscribers.size = w.subscribers.size) (d : DepId) :
    Registers w (m.notify d) where
  place := registers.place
  stack := registers.stack
  kept {s p d'} found away alive := by
    have before := alive_notify alive
    rw [entries_notify]
    split
    · rw [List.count_filter before, registers.kept found away before]
    · exact registers.kept found away before
  fresh unknown found := by
    obtain ⟨x, present, -, -⟩ := watches?_eq_some_iff.mp found
    have known : m.world.Known _ := known_of_watcher present
    rw [Known, size] at known
    exact absurd known unknown

theorem registers_write (m : Machine σ) (o : ObjectId) (key : String) (value : Value) :
    Registers m.world (m.write o key value) := by
  obtain ⟨-, subscribers, entries⟩ := write_same m.world o key value
  have targets := targets_of_custody (custody_write m.world o key value)
  unfold write
  cases written : m.world.write o key value with
  | mk w d? =>
    rw [written] at subscribers entries targets
    have size : w.subscribers.size = m.world.subscribers.size := congrArg _ subscribers
    have stored : Registers m.world { m with world := w } :=
      registers_of_same size
        (fun s => by rw [watches?, watches?, watcher?_of_subscribers subscribers]) entries
        (fun s collecting => targets ▸ collecting)
    cases d? with
    | none => exact stored
    | some d => exact stored.notify size d

theorem registers_update (m : Machine σ) (s : SubscriberId) : Registers m.world (m.update s) := by
  obtain ⟨-, deps, size, -⟩ := update_same m s
  have targets := targets_of_custody (custody_update m s)
  refine registers_of_same size (fun t => ?_) (entries_of_deps deps)
    (fun t collecting => targets ▸ collecting)
  rcases update_cases m s with ⟨_, same, -⟩ | ⟨x, _, -, -, -, same⟩
  · rw [same]
  · obtain ⟨-, -, subscribers⟩ := react_same
      (m.world.remember s (m.world.peek x.root x.key)) x.reaction (m.world.peek x.root x.key)
    rw [same, watches?, watcher?_of_subscribers subscribers]
    exact watches?_remember m.world s t _

/-- A subscriber that is no watcher is added. -/
private theorem enlists_subscribe (w : World) (c : CallbackId) :
    Enlists w ((w.newSubscriber (.host c)).1.hold ⟨w.subscribers.size⟩) where
  moves := (Relation.ReflTransGen.single (.subscribe w c)).tail (.custody _ _ _ _ _)
  stack collecting _ := collecting
  kept _ _ := rfl
  fresh unknown found := by
    have pushed : (w.newSubscriber (.host c)).1.subscribers = w.subscribers.push (.host c) := rfl
    obtain ⟨-, host⟩ := added_of_push pushed unknown found
    cases host

/-- A watcher is made by the host program, which holds it. -/
private theorem enlists_held {w : World} (sound : w.Sound) (root : ObjectId) (key : String)
    (reaction : Reaction) :
    Enlists w ((w.watch root key reaction).1.hold (w.watch root key reaction).2) :=
  (enlists_watch sound root key reaction).trans sound
    (.of_same (.single (.custody _ _ _ _ _)) rfl (fun _ => rfl) (fun _ => id)) (.inr rfl)

private theorem registers_of_deed {m m' : Machine σ} (sound : m.Sound)
    (free : ∀ s, m.handed? = some s → m.world.watcher? s = none) (deed : Deed m m') :
    Registers m.world m' := by
  -- Neither the lists nor what the subscribers watch have changed.
  have hidden : ∀ {w : World}, m'.world = w → w.subscribers = m.world.subscribers →
      w.deps = m.world.deps → (∀ s, some s ∈ w.targets → some s ∈ m.world.targets) →
      Registers m.world m' := by
    rintro w rfl subscribers deps targets
    refine registers_of_same (by rw [subscribers]) (fun s => ?_) (entries_of_deps deps) targets
    rw [watches?, watches?, watcher?_of_subscribers subscribers]
  cases deed with
  | rests world => exact registers_of_world world
  | hides targets fewer world => exact hidden world rfl rfl fewer
  | acts due done => exact registers_of_enlists (enlists_perform sound.world done)
  | subscribes callback world => exact registers_of_enlists (world ▸ enlists_subscribe m.world _)
  | watches root key callback world =>
    exact registers_of_enlists (world ▸ enlists_held sound.world root key _)
  | registers d s due alive world =>
    have nobody := free s (by rw [handed?, due]; rfl)
    have other : ∀ x, m.world.watcher? s = some x → some s ∈ m.world.targets := fun x found =>
      nomatch nobody.symm.trans found
    exact registers_of_enlists (world ▸ enlists_register d (.inr (sound.known alive)) other)
  | enters s due asked alive world =>
    have handed : m.handed? = some s := by
      rw [handed?, due]
      rcases asked with rfl | ⟨body, rfl⟩ <;> rfl
    have nobody := free s handed
    refine ⟨fun _ => by rw [world]; rfl, fun {t p} collecting found => ?_, fun _ _ _ => by rw [world]; rfl,
      fun unknown found => ?_⟩
    · rw [world] at collecting found
      rcases List.mem_cons.mp collecting with same | old
      · obtain rfl := Option.some.inj same
        have none : m.world.watches? t = none := by rw [watches?, nobody]; rfl
        cases none.symm.trans found
      · exact old
    · rw [world] at found
      obtain ⟨x, present, -, -⟩ := watches?_eq_some_iff.mp found
      exact absurd (known_of_watcher present) unknown
  | listens n callback world => exact hidden world rfl rfl fun _ => id
  | types n text world => exact hidden world rfl rfl fun _ => id
  | @writes o key v frames => exact registers_write { m with frames := frames } o key v
  | @notifies frames d =>
    have called : Registers m.world { m with frames := frames } := registers_of_world rfl
    exact called.notify rfl d
  | @tells s frames => exact registers_update { m with frames := frames } s

theorem step_registers {m : Machine σ} (sound : m.Sound)
    (free : ∀ s, m.handed? = some s → m.world.watcher? s = none) : Registers m.world m.step :=
  registers_of_deed sound free (step_deed m)

/-- The host program runs, any number of times, and hands no watcher to a list or to the stack. -/
inductive Unaided (m : Machine σ) : Machine σ → Prop where
  | refl : Unaided m m
  | step (ran : Unaided m a) (free : ∀ s, a.handed? = some s → a.world.watcher? s = none) :
      Unaided m a.step
  | start (ran : Unaided m a) (idle : a.idle = true) (host : σ) (p : Program σ) :
      Unaided m (start { a with host := host } p)

theorem Unaided.reachable {m m' : Machine σ} (ran : Unaided m m') (reachable : m.Reachable) :
    m'.Reachable := by
  induction ran with
  | refl => exact reachable
  | step _ _ ih => exact reachable_step ih
  | start _ idle host p ih => exact reachable_start ih idle host p

theorem Unaided.trans {a b c : Machine σ} (first : Unaided a b) (second : Unaided b c) :
    Unaided a c := by
  induction second with
  | refl => exact first
  | step _ free ih => exact ih.step free
  | start _ idle host p ih => exact ih.start idle host p

section Runs

variable {host : σ} {m m' : Machine σ}

theorem Unaided.sound (ran : Unaided { host := host } m) : m.Sound :=
  reachable_sound (ran.reachable (reachable_initial host))

/-- No watcher collects between two steps. -/
theorem Unaided.collects (ran : Unaided { host := host } m)
    (found : m.world.watches? s = some p) : some s ∉ m.world.targets := by
  induction ran with
  | refl => exact List.not_mem_nil
  | step ran free ih =>
    have registers := step_registers ran.sound free
    intro collecting
    have before := registers.stack collecting found
    rw [registers.place (ran.sound.world.targets before)] at found
    exact ih found before
  | start _ _ _ _ ih => exact ih found

/-- A watcher has an entry in its own list, if it has such a list, and no other. -/
structure Listed (s : SubscriberId) (o : ObjectId) (key : String) (own : Option DepId)
    (m : Machine σ) : Prop where
  watches : m.world.watches? s = some (o, key)
  tracked : own = some d → m.world.Tracked o key d
  entries : m.alive s = true → (m.world.entries d).count s = if own = some d then 1 else 0

private theorem Listed.step (listed : Listed s o key own m) (sound : m.Sound)
    (free : ∀ s, m.handed? = some s → m.world.watcher? s = none)
    (away : some s ∉ m.world.targets) : Listed s o key own m.step := by
  have registers := step_registers sound free
  have turn := step_turn fun _ => sound.known
  have known : m.world.Known s := by
    obtain ⟨x, present, -, -⟩ := watches?_eq_some_iff.mp listed.watches
    exact known_of_watcher present
  refine ⟨(registers.place known).trans listed.watches,
    fun own => turn.tracked (listed.tracked own), fun alive => ?_⟩
  have before : m.alive s = true := by
    rcases turn.alive alive with before | ⟨unknown, -⟩
    · exact before
    · exact absurd known unknown
  rw [registers.kept listed.watches away alive, listed.entries before]

private theorem Listed.along (listed : Listed s o key own m)
    (before : Unaided { host := host } m) (ran : Unaided m m') :
    Unaided { host := host } m' ∧ Listed s o key own m' := by
  induction ran with
  | refl => exact ⟨before, listed⟩
  | step _ free ih =>
    obtain ⟨ran, listed⟩ := ih
    exact ⟨ran.step free, listed.step ran.sound free (ran.collects listed.watches)⟩
  | start _ idle host p ih =>
    obtain ⟨ran, listed⟩ := ih
    exact ⟨ran.start idle host p, listed.watches, listed.tracked,
      fun alive => listed.entries (alive_start host p alive)⟩

/-- A step that makes a watcher hands nobody over. -/
private theorem free_of_made (new : m.world.watches? s = none)
    (made : m.step.world.watches? s = some p) (handed : m.handed? = some t) : False := by
  unfold handed? at handed
  split at handed
  · rename_i r next below due
    rw [step, due] at made
    cases r with
    | register | enter | collecting =>
      simp only [request] at made
      split at made <;> cases new.symm.trans made
    | _ => cases handed
  · cases handed

/-- Whichever step makes a watcher, as long as the watcher is alive it has exactly one entry in the
list of its own property if that was tracked when the watcher was made, and none in any other list.
Runs may be broken off and others begun after them; all that is asked of the host program is that
it hands no watcher over by itself. -/
theorem watchers_are_registered_once {m₀ : Machine σ} (before : Unaided { host := host } m₀)
    (new : m₀.world.watches? s = none) (made : m₀.step.world.watches? s = some (o, key))
    (after : Unaided m₀.step m) (alive : m.alive s = true) :
    m.world.watches? s = some (o, key) ∧
    (∀ d, m₀.step.world.Tracked o key d →
      m.world.Tracked o key d ∧ (m.world.entries d).count s = 1) ∧
    ∀ d, ¬m₀.step.world.Tracked o key d → s ∉ m.world.entries d := by
  have free : ∀ s, m₀.handed? = some s → m₀.world.watcher? s = none :=
    fun t handed => (free_of_made new made handed).elim
  have registers := step_registers before.sound free
  have unknown : ¬m₀.world.Known s := fun known => by
    rw [registers.place known, new] at made
    cases made
  have listed : Listed s o key ((m₀.step.world.properties o).dep? key) m₀.step :=
    ⟨made, tracked_iff.mpr, fun _ => registers.fresh unknown made⟩
  obtain ⟨-, listed⟩ := listed.along (before.step free) after
  refine ⟨listed.watches, fun d tracked => ?_, fun d plain => ?_⟩
  · have own := tracked_iff.mp tracked
    exact ⟨listed.tracked own, (listed.entries alive).trans (if_pos own)⟩
  · have none := (listed.entries alive).trans (if_neg fun own => plain (tracked_iff.mpr own))
    exact List.count_eq_zero.mp none

end Runs

private theorem unaided_run (m : Machine σ) (n : Nat) (free : ∀ i < n, (run i m).handed?.all
    (fun s => ((run i m).world.watcher? s).isNone) = true) : Unaided m (run n m) := by
  induction n with
  | zero => exact .refl
  | succ n ih =>
    rw [run_succ]
    refine (ih fun i less => free i (Nat.lt_succ_of_lt less)).step fun s handed => ?_
    have last := free n (Nat.lt_succ_self n)
    rw [handed] at last
    simpa using last

/-- A subscriber collects while a watcher is made and told. The watcher's callback reads for that
subscriber and makes another watcher under cover; being told itself, that one breaks off the run. -/
def attributed : Program Unit :=
  .call (.act (.newObject [("a", .null), ("b", .null)])) fun _ =>
  .call (.act (.observe (.object ⟨0⟩))) fun _ =>
  .call (.subscribe fun _ => .done) fun _ =>
  .call (.enter ⟨0⟩) fun _ =>
  .call (.watch ⟨0⟩ "a" fun _ =>
    .call (.act (.read ⟨0⟩ "b")) fun _ =>
    .call (.untracked (.call (.watch ⟨0⟩ "b" fun _ => .call (.panic "stop") fun _ => .done)
      fun _ => .done)) fun _ => .done) fun _ =>
  .call (.write ⟨0⟩ "a" (.bool true)) fun _ =>
  .call (.write ⟨0⟩ "b" (.bool true)) fun _ => .done

/-- The machine about to make the second watcher. -/
def attributedMachine : Machine Unit := run 9 (start { host := () } attributed)

/-- The second watcher is listed behind the subscriber, and it alone there. -/
theorem attributed_watchers_are_registered_once :
    ∃ m : Machine Unit, Unaided attributedMachine.step m ∧ m.failure = some (.panic "stop") ∧
      m.world.deps.cells.toList = [[⟨1⟩], [⟨0⟩, ⟨2⟩]] ∧ m.world.watches? ⟨2⟩ = some (⟨0⟩, "b") ∧
      (m.world.entries ⟨1⟩).count ⟨2⟩ = 1 ∧ ⟨2⟩ ∉ m.world.entries ⟨0⟩ := by
  have started : Unaided { host := () } (start { host := () } attributed) :=
    Unaided.refl.start rfl () attributed
  have before : Unaided { host := () } attributedMachine :=
    started.trans (unaided_run _ 9 (by decide +kernel))
  have after := unaided_run attributedMachine.step 9 (by decide +kernel)
  have once := watchers_are_registered_once before
    (show attributedMachine.world.watches? ⟨2⟩ = none by decide +kernel)
    (show attributedMachine.step.world.watches? ⟨2⟩ = some (⟨0⟩, "b") by decide +kernel)
    after (by decide +kernel)
  obtain ⟨watches, own, other⟩ := once
  exact ⟨_, after, by decide +kernel, by decide +kernel, watches,
    (own ⟨1⟩ (tracked_iff.mpr (by decide +kernel))).2,
    other ⟨0⟩ fun tracked => absurd (tracked_iff.mp tracked) (by decide +kernel)⟩

end Machine
end DataBinding
