import DataBinding.Proofs.Turns

/-! The machines that a host program can bring about, over any number of runs one after
the other, and what holds of all of them: everything that is referred to exists, every
tracked property has a dependency list of its own, and every subscriber has one owner at
most. -/
namespace DataBinding

namespace World

/-- References lead to existing things, and no two tracked properties share a list. -/
structure Sound (w : World) : Prop where
  dep : w.slot? o key = some slot → slot.dep = some d → d.index < w.deps.size
  apart : w.slot? o key = some slot → slot.dep = some d →
    w.slot? o' key' = some slot' → slot'.dep = some d → o = o' ∧ key = key'
  entries : s ∈ w.entries d → w.Known s
  targets : some s ∈ w.targets → w.Known s
  tidy : w.node? n = some x → x.Tidy

/-- Whichever property is tracked after a change was tracked before, or has a new list
that it shares with nobody. -/
private structure Tracks (w w' : World) : Prop where
  origin : w'.slot? o key = some slot → slot.dep = some d →
    (∃ before, w.slot? o key = some before ∧ before.dep = some d) ∨
      w.deps.size ≤ d.index ∧ d.index < w'.deps.size
  apart : w'.slot? o key = some slot → slot.dep = some d →
    w'.slot? o' key' = some slot' → slot'.dep = some d → w.deps.size ≤ d.index →
      o = o' ∧ key = key'
  size : w.deps.size ≤ w'.deps.size

private theorem Tracks.sound {w w' : World} (tracks : Tracks w w') (sound : w.Sound)
    (entries : ∀ {s d}, s ∈ w'.entries d → w'.Known s)
    (targets : ∀ {s}, some s ∈ w'.targets → w'.Known s)
    (tidy : ∀ {n x}, w'.node? n = some x → x.Tidy) : w'.Sound where
  dep found tracked := by
    rcases tracks.origin found tracked with ⟨before, present, listed⟩ | ⟨-, inside⟩
    · exact Nat.lt_of_lt_of_le (sound.dep present listed) tracks.size
    · exact inside
  apart {o key slot d o' key' slot'} found tracked found' tracked' := by
    rcases tracks.origin found tracked with ⟨before, present, listed⟩ | ⟨fresh, -⟩
    · rcases tracks.origin found' tracked' with ⟨before', present', listed'⟩ | ⟨fresh, -⟩
      · exact sound.apart present listed present' listed'
      · exact absurd (sound.dep present listed) (Nat.not_lt_of_le fresh)
    · exact tracks.apart found tracked found' tracked' fresh
  entries := entries
  targets := targets
  tidy := tidy

/-- Nothing becomes tracked where each tracked property was tracked with the same list. -/
private theorem tracks_of_origin {w w' : World}
    (origin : ∀ {o key slot d}, w'.slot? o key = some slot → slot.dep = some d →
      ∃ before, w.slot? o key = some before ∧ before.dep = some d)
    (inside : ∀ {o key slot d}, w.slot? o key = some slot → slot.dep = some d →
      d.index < w.deps.size)
    (size : w.deps.size ≤ w'.deps.size) : Tracks w w' where
  origin found tracked := .inl (origin found tracked)
  apart found tracked _ _ fresh := by
    obtain ⟨before, present, listed⟩ := origin found tracked
    exact absurd (inside present listed) (Nat.not_lt_of_le fresh)
  size := size

/-- A slot of a changed object comes from the change, every other slot was there. -/
theorem slot?_modifyObject_cases {w : World} (f : Properties → Properties)
    (found : (w.modifyObject changed f).slot? o key = some slot) :
    o = changed ∧ (f (w.properties o)).find? key = some slot ∨
      w.slot? o key = some slot := by
  rcases properties_modifyObject_cases w changed f o with same | ⟨here, same⟩
  · rw [slot?, same] at found
    exact .inr found
  · rw [slot?, same] at found
    exact .inl ⟨here, found⟩

/-- No property is tracked. -/
def AllPlain (p : Properties) : Prop := ∀ key slot, p.find? key = some slot → slot.dep = none

private theorem plain_assign {p : Properties} (plain : AllPlain p) (key : String) (value : Value) :
    AllPlain (p.assign key value) := by
  intro other slot found
  unfold Properties.assign at found
  split at found
  · rw [Properties.find?_append] at found
    cases present : p.find? other with
    | some old =>
      rw [present] at found
      exact plain other slot (present.trans found)
    | none =>
      rw [present, Option.none_or] at found
      split at found
      · obtain rfl := Option.some.inj found
        rfl
      · cases found
  · rw [Properties.find?_replace] at found
    obtain ⟨old, present, rfl⟩ := Option.map_eq_some_iff.mp found
    have none := plain other old present
    split <;> exact none

theorem plain_ofEntries (entries : List (String × Value)) :
    AllPlain (.ofEntries entries) := by
  suffices folded : ∀ p : Properties, AllPlain p →
      AllPlain (entries.foldl (fun p entry => p.assign entry.1 entry.2) p) from
    folded {} fun _ _ found => nomatch found
  induction entries with
  | nil => exact fun _ plain => plain
  | cons entry rest ih => exact fun p plain => ih _ (plain_assign plain entry.1 entry.2)

/-- What is found after tracking was tracked before or has one of the new lists. -/
private theorem slot?_trackObject_cases {w : World}
    (found : (w.trackObject observed).1.slot? o key = some slot) (tracked : slot.dep = some d) :
    (∃ before, w.slot? o key = some before ∧ before.dep = some d) ∨
    ∃ before, o = observed ∧ w.slot? o key = some before ∧ before.dep = none ∧
      ((w.properties o).track w.deps.size).find? key = some { before with dep := some d } ∧
      w.deps.size ≤ d.index ∧ d.index < (w.trackObject observed).1.deps.size := by
  have changed : (w.modifyObject observed (·.track w.deps.size)).slot? o key = some slot := found
  rcases slot?_modifyObject_cases _ changed with ⟨rfl, after⟩ | before
  · cases present : (w.properties o).find? key with
    | none =>
      rw [Properties.find?_track_of_none _ present] at after
      cases after
    | some before =>
      cases kept : before.dep with
      | some e =>
        have same := Properties.find?_track_of_dep w.deps.size present kept
        obtain rfl : before = slot := Option.some.inj (same.symm.trans after)
        exact .inl ⟨before, present, tracked⟩
      | none =>
        obtain ⟨e, fresh, least, bound⟩ :=
          Properties.find?_track_of_plain w.deps.size present kept
        obtain rfl : { before with dep := some e } = slot :=
          Option.some.inj (fresh.symm.trans after)
        obtain rfl : e = d := Option.some.inj tracked
        refine .inr ⟨before, rfl, present, kept, fresh, least, ?_⟩
        rw [size_deps_trackObject]
        simpa [trackObject, Properties.untrackedCount_eq_length] using bound
  · exact .inl ⟨slot, before, tracked⟩

private theorem tracks_trackObject {w : World} (sound : w.Sound) (observed : ObjectId) :
    Tracks w (w.trackObject observed).1 where
  origin found tracked := by
    rcases slot?_trackObject_cases found tracked with before | ⟨-, -, -, -, -, fresh⟩
    · exact .inl before
    · exact .inr fresh
  apart found tracked found' tracked' fresh := by
    have unlisted : ∀ {o key before}, w.slot? o key = some before → before.dep ≠ some _ :=
      fun present listed => absurd (sound.dep present listed) (Nat.not_lt_of_le fresh)
    rcases slot?_trackObject_cases found tracked with ⟨_, present, listed⟩ | ⟨_, rfl, present, plain, after, -⟩
    · exact absurd listed (unlisted present)
    · rcases slot?_trackObject_cases found' tracked' with
        ⟨_, present', listed'⟩ | ⟨_, rfl, present', plain', after', -⟩
      · exact absurd listed' (unlisted present')
      · exact ⟨rfl, Properties.find?_track_apart _ present plain present' plain' after after'⟩
  size := by
    rw [size_deps_trackObject]
    exact Nat.le_add_right _ _

/-- Objects that do not change keep their tracked properties. -/
private theorem tracks_of_objects {w w' : World} (sound : w.Sound) (objects : w'.objects = w.objects)
    (size : w.deps.size ≤ w'.deps.size) : Tracks w w' :=
  tracks_of_origin
    (fun found tracked => ⟨_, by simpa only [slot?, properties, objects] using found, tracked⟩)
    sound.dep size

theorem known_of_size {w w' : World} (size : w.subscribers.size ≤ w'.subscribers.size)
    (known : w.Known s) : w'.Known s :=
  Nat.lt_of_lt_of_le known size

/-- Where pages do not change, nodes stay tidy; where dependency lists, the stack and
subscribers do not change, everything listed there still exists. -/
private theorem sound_of_same {w w' : World} (sound : w.Sound) (tracks : Tracks w w')
    (entries : ∀ d, w'.entries d = w.entries d) (targets : w'.targets = w.targets)
    (size : w.subscribers.size ≤ w'.subscribers.size) (nodes : w'.nodes = w.nodes) : w'.Sound :=
  tracks.sound sound (fun listed => known_of_size size (sound.entries (entries _ ▸ listed)))
    (fun collecting => known_of_size size (sound.targets (targets ▸ collecting)))
    (fun found => sound.tidy (by rw [node?, ← nodes]; exact found))

private theorem tracks_newObject {w : World} (sound : w.Sound) (entries : List (String × Value)) :
    Tracks w (w.newObject (.ofEntries entries)).1 := by
  refine tracks_of_origin ?_ sound.dep (Nat.le_refl _)
  intro o key slot d found tracked
  by_cases new : o.index = w.objects.size
  · have added : (Properties.ofEntries entries).find? key = some slot := by
      simpa [slot?, properties, newObject, Arena.get?_push, new] using found
    have plain := plain_ofEntries entries key slot added
    rw [plain] at tracked
    cases tracked
  · refine ⟨slot, ?_, tracked⟩
    simpa [slot?, properties, newObject, Arena.get?_push, new] using found

/-- A change to an object that gives no property a dependency list. -/
private theorem tracks_modifyObject {w : World} (sound : w.Sound) (f : Properties → Properties)
    (origin : ∀ {key slot d}, (f (w.properties o)).find? key = some slot → slot.dep = some d →
      ∃ before, (w.properties o).find? key = some before ∧ before.dep = some d) :
    Tracks w (w.modifyObject o f) := by
  refine tracks_of_origin ?_ sound.dep (Nat.le_refl _)
  intro o key slot d found tracked
  rcases slot?_modifyObject_cases f found with ⟨rfl, changed⟩ | before
  · exact origin changed tracked
  · exact ⟨slot, before, tracked⟩

private theorem dep_of_append {p : Properties} {absent : p.find? added = none}
    (found : (p.append added value absent).find? key = some slot) (tracked : slot.dep = some d) :
    ∃ before, p.find? key = some before ∧ before.dep = some d := by
  rw [Properties.find?_append] at found
  cases present : p.find? key with
  | some before =>
    rw [present] at found
    obtain rfl : before = slot := Option.some.inj found
    exact ⟨before, rfl, tracked⟩
  | none =>
    rw [present, Option.none_or] at found
    split at found
    · obtain rfl := Option.some.inj found
      cases tracked
    · cases found

private theorem dep_of_replace {p : Properties} (found : (p.replace stored value).find? key = some slot)
    (tracked : slot.dep = some d) : ∃ before, p.find? key = some before ∧ before.dep = some d := by
  rw [Properties.find?_replace] at found
  obtain ⟨before, present, rfl⟩ := Option.map_eq_some_iff.mp found
  refine ⟨before, present, ?_⟩
  split at tracked <;> exact tracked

private theorem sound_watch {w : World} (sound : w.Sound) (root : ObjectId) (key : String)
    (reaction : Reaction) : (w.watch root key reaction).1.Sound := by
  have grown : w.subscribers.size ≤ (w.watch root key reaction).1.subscribers.size := by
    rw [subscribers_watch, Arena.size_push]
    exact Nat.le_succ _
  cases tracked : (w.properties root).dep? key with
  | none =>
    rw [watch_of_plain reaction tracked] at grown ⊢
    exact sound_of_same sound (tracks_of_objects sound rfl (Nat.le_refl _)) (fun _ => rfl) rfl grown
      rfl
  | some d =>
    rw [watch_of_dep reaction tracked] at grown ⊢
    have tracks : Tracks w ((w.newSubscriber (.watcher (w.newWatcher root key reaction))).1.register d
        ⟨w.subscribers.size⟩) := tracks_of_objects sound rfl (by simp [register, newSubscriber])
    refine tracks.sound sound ?_ ?_ sound.tidy
    · intro s d' listed
      rw [entries_register] at listed
      split at listed
      · rcases List.mem_append.mp listed with old | new
        · exact known_of_size grown (sound.entries old)
        · obtain rfl := List.mem_singleton.mp new
          simp [Known, register, newSubscriber]
      · exact known_of_size grown (sound.entries listed)
    · exact fun collecting => known_of_size grown (sound.targets collecting)

theorem Move.sound {w w' : World} (move : Move w w') (sound : w.Sound) : w'.Sound := by
  cases move with
  | object _ entries =>
    exact sound_of_same sound (tracks_newObject sound entries) (fun _ => rfl) rfl (Nat.le_refl _) rfl
  | add value absent =>
    exact sound_of_same sound (tracks_modifyObject sound _ dep_of_append) (fun _ => rfl) rfl
      (Nat.le_refl _) rfl
  | put value found plain =>
    exact sound_of_same sound (tracks_modifyObject sound _ dep_of_replace) (fun _ => rfl) rfl
      (Nat.le_refl _) rfl
  | track _ o =>
    exact sound_of_same sound (tracks_trackObject sound o) (entries_trackObject w o) rfl
      (Nat.le_refl _) rfl
  | dep =>
    have tracks : Tracks w w.newDep.1 := tracks_of_objects sound rfl (by simp [newDep])
    exact sound_of_same sound tracks (entries_newDep w) rfl (Nat.le_refl _) rfl
  | @register s _ d origin =>
    have exists_ : w.Known s := origin.elim sound.targets id
    have tracks : Tracks w (w.register d s) := tracks_of_objects sound rfl (by simp [World.register])
    refine tracks.sound sound ?_ sound.targets sound.tidy
    intro t d' listed
    rw [entries_register] at listed
    split at listed
    · rcases List.mem_append.mp listed with old | new
      · exact sound.entries old
      · exact List.mem_singleton.mp new ▸ exists_
    · exact sound.entries listed
  | subscribe _ c =>
    have grown : w.subscribers.size ≤ (w.newSubscriber (.host c)).1.subscribers.size := by
      simp [newSubscriber]
    exact sound_of_same sound (tracks_of_objects sound rfl (Nat.le_refl _)) (fun _ => rfl) rfl grown rfl
  | watch _ root key reaction => exact sound_watch sound root key reaction
  | stack _ targets origin =>
    have tracks : Tracks w { w with targets := targets } :=
      tracks_of_objects sound rfl (Nat.le_refl _)
    exact tracks.sound sound sound.entries (fun member => (origin _ member).elim sound.targets id)
      sound.tidy
  | @node n _ tidy =>
    have tracks : Tracks w (w.newNode n).1 := tracks_of_objects sound rfl (Nat.le_refl _)
    apply tracks.sound sound sound.entries sound.targets
    intro i x found
    simp only [node?, newNode, Arena.get?_push] at found
    split at found
    · exact Option.some.inj found ▸ tidy
    · exact sound.tidy found
  | @edit f _ n tidy =>
    have tracks : Tracks w (w.modifyNode n f) := tracks_of_objects sound rfl (Nat.le_refl _)
    apply tracks.sound sound sound.entries sound.targets
    intro i x found
    simp only [node?, modifyNode, Arena.get?_modify] at found
    split at found
    · obtain ⟨y, before, rfl⟩ := Option.map_eq_some_iff.mp found
      exact tidy y (sound.tidy before)
    · exact sound.tidy found
  | custody =>
    exact sound_of_same sound (tracks_of_objects sound rfl (Nat.le_refl _)) (fun _ => rfl) rfl
      (Nat.le_refl _) rfl

theorem Moves.sound {w w' : World} (moves : Moves w w') (sound : w.Sound) : w'.Sound := by
  induction moves with
  | refl => exact sound
  | tail _ move ih => exact move.sound ih

/-- Storing in a property leaves its dependency list as it is. -/
theorem sound_replace {w : World} (sound : w.Sound) (o : ObjectId) (key : String) (value : Value) :
    (w.modifyObject o (·.replace key value)).Sound :=
  sound_of_same sound (tracks_modifyObject sound _ dep_of_replace) (fun _ => rfl) rfl
    (Nat.le_refl _) rfl

theorem sound_remember {w : World} (sound : w.Sound) (s : SubscriberId) (value : Value) :
    (w.remember s value).Sound :=
  sound_of_same sound (tracks_of_objects sound rfl (Nat.le_refl _)) (fun _ => rfl) rfl
    (by simp [remember]) rfl

end World

namespace Machine
open World

variable {σ : Type}

/-- Machines that begin with nothing, take any number of steps and are started again
whenever they are idle, all the while in states with a property. -/
inductive Leads (P : Machine σ → Prop) (m : Machine σ) : Machine σ → Prop where
  | refl : Leads P m m
  | step (led : Leads P m a) (holds : P a.step) : Leads P m a.step
  | start (led : Leads P m a) (idle : a.idle = true) (host : σ) (p : Program σ)
      (holds : P (start { a with host := host } p)) : Leads P m (start { a with host := host } p)

/-- The machine comes about by running programs one after the other, however each of
them ended. -/
def Reachable (m : Machine σ) : Prop := ∃ host, Leads (fun _ => True) { host := host } m

theorem step_of_idle {m : Machine σ} (idle : m.idle = true) : m.step = m := by
  have none : m.frames = [] := List.isEmpty_iff.mp idle
  simp [step, none]

theorem run_succ (n : Nat) (m : Machine σ) : run (n + 1) m = (run n m).step := by
  induction n generalizing m with
  | zero => by_cases idle : m.idle = true <;> simp [run, idle, step_of_idle]
  | succ n ih =>
    by_cases idle : m.idle = true
    · simp [run, idle, step_of_idle]
    · have next : ∀ k, run (k + 1) m = run k m.step := fun k => by simp [run, idle]
      rw [next, ih, next]

theorem leads_run (m : Machine σ) (n : Nat) : Leads (fun _ => True) m (run n m) := by
  induction n with
  | zero => exact .refl
  | succ n ih =>
    rw [run_succ]
    exact ih.step trivial

/-- What a reachable machine leads to is reachable. -/
theorem Leads.reachable {m m' : Machine σ} (led : Leads (fun _ => True) m m')
    (reachable : m.Reachable) : m'.Reachable := by
  obtain ⟨host, before⟩ := reachable
  refine ⟨host, ?_⟩
  induction led with
  | refl => exact before
  | step _ _ ih => exact ih.step trivial
  | start _ idle host' p _ ih => exact ih.start idle host' p trivial

theorem reachable_initial (host : σ) : Reachable { host := host } := ⟨host, .refl⟩

theorem reachable_start {m : Machine σ} (reachable : m.Reachable) (idle : m.idle = true) (host : σ)
    (p : Program σ) : (start { m with host := host } p).Reachable := by
  obtain ⟨first, led⟩ := reachable
  exact ⟨first, led.start idle host p trivial⟩

theorem reachable_step {m : Machine σ} (reachable : m.Reachable) : m.step.Reachable := by
  obtain ⟨first, led⟩ := reachable
  exact ⟨first, led.step trivial⟩

theorem reachable_run {m : Machine σ} (n : Nat) (reachable : m.Reachable) :
    (run n m).Reachable :=
  (leads_run m n).reachable reachable

/-- What holds of a machine at any moment. -/
structure Sound (m : Machine σ) : Prop where
  world : m.world.Sound
  known : m.alive s = true → m.world.Known s
  single : m.world.owners s ≤ 1
  /-- A notification keeps those alive that it is still going to tell. -/
  waits : f ∈ m.frames → s ∈ f.pending → f.keeps s = true

theorem alive_of_custody {m m' : Machine σ} (custody : m'.world.custody = m.world.custody)
    (frames : m'.frames = m.frames) : m'.alive s = m.alive s := by
  rw [alive, alive, holds_of_custody custody, frames]

theorem Calls.alive {m : Machine σ} (calls : m.Calls top added below)
    (alive : Machine.alive { m with frames := added ++ below } s = true) : m.alive s = true := by
  rcases alive_iff.mp alive with held | ⟨f, member, keeps⟩
  · exact alive_iff.mpr (.inl held)
  · rcases List.mem_append.mp member with new | old
    · exact calls.kept f new s keeps
    · exact alive_iff.mpr (.inr ⟨f, calls.due ▸ List.mem_cons_of_mem _ old, keeps⟩)

/-- A notification keeps only those alive that were. -/
theorem alive_notify {m : Machine σ} (alive : (m.notify d).alive s = true) : m.alive s = true := by
  rcases alive_iff.mp alive with held | ⟨f, member, keeps⟩
  · exact alive_iff.mpr (.inl held)
  · rcases List.mem_cons.mp member with rfl | old
    · have listed : s ∈ (m.world.entries d).filter m.alive := by simpa [Frame.keeps] using keeps
      exact (List.mem_filter.mp listed).2
    · exact alive_iff.mpr (.inr ⟨f, old, keeps⟩)

theorem custody_update (m : Machine σ) (s : SubscriberId) :
    (m.update s).world.custody = m.world.custody := by
  rcases update_cases m s with ⟨_, same, -⟩ | ⟨x, _, -, -, -, same⟩
  · rw [same]
  · rw [same]
    exact custody_react _ _ _

/-- Telling a subscriber begins programs at most. -/
theorem frames_update (m : Machine σ) (s : SubscriberId) :
    ∃ begun, (m.update s).frames = begun ++ m.frames ∧ ∀ f ∈ begun, ∃ p, f = Frame.program p := by
  rcases update_cases m s with ⟨added, same, programs, -⟩ | ⟨x, added, -, -, programs, same⟩
  · exact ⟨added, by rw [same], programs⟩
  · exact ⟨added, by rw [same], programs⟩

theorem alive_update {m : Machine σ} (alive : (m.update s).alive t = true) : m.alive t = true := by
  obtain ⟨added, frames, programs⟩ := frames_update m s
  rcases alive_iff.mp alive with held | ⟨f, member, keeps⟩
  · exact alive_iff.mpr (.inl (holds_of_custody (custody_update m s) ▸ held))
  · rw [frames] at member
    rcases List.mem_append.mp member with new | old
    · obtain ⟨p, rfl⟩ := programs f new
      cases keeps
    · exact alive_iff.mpr (.inr ⟨f, old, keeps⟩)

/-- A step works above a frame that lies below another one. -/
theorem Turn.stays_above {m m' : Machine σ} (turn : Turn m m')
    (inside : m.frames = first :: above ++ base) (unbroken : m'.frames = [] → m'.failure = none) :
    ∃ above', m'.frames = above' ++ base := by
  have rest : ∀ {top added below}, m.Calls top added below → added ++ below = added ++ above ++ base := by
    intro top added below calls
    obtain ⟨-, rfl⟩ := List.cons.inj (calls.due.symm.trans inside)
    exact (List.append_assoc ..).symm
  cases turn with
  | still idle =>
    rw [idle] at inside
    cases inside
  | calm calls _ _ _ _ _ frames _ => exact ⟨_, frames.trans (rest calls)⟩
  | @tell top added below s calls =>
    obtain ⟨begun, frames, -⟩ := frames_update { m with frames := added ++ below } s
    exact ⟨begun ++ (added ++ above), by rw [frames, rest calls]; simp⟩
  | notify calls => exact ⟨_ :: _, congrArg (_ :: ·) (rest calls)⟩
  | store calls => exact ⟨_ :: _, congrArg (_ :: ·) (rest calls)⟩
  | broken _ _ _ frames failure => exact absurd (unbroken frames) failure

/-- Whoever is alive after a step was alive before or is new. -/
theorem Turn.alive {m m' : Machine σ} (turn : Turn m m') (alive : m'.alive s = true) :
    m.alive s = true ∨ ¬m.world.Known s ∧ m'.world.Known s := by
  cases turn with
  | still idle => exact .inl alive
  | calm calls _ _ _ entrusts collecting frames _ =>
    rcases alive_iff.mp alive with held | ⟨f, member, keeps⟩
    · rcases holds_iff.mp held with owned | target
      · rcases entrusts s with fewer | ⟨unknown, known, -⟩
        · have before := Nat.lt_of_lt_of_le owned fewer
          exact .inl (alive_iff.mpr (.inl (holds_iff.mpr (.inl before))))
        · exact .inr ⟨unknown, known⟩
      · exact .inl (collecting s target)
    · rw [frames] at member
      exact .inl (calls.alive (alive_iff.mpr (.inr ⟨f, member, keeps⟩)))
  | tell calls => exact .inl (calls.alive (alive_update alive))
  | notify calls => exact .inl (calls.alive (alive_notify alive))
  | @store top added below o key slot d value calls =>
    have stored := alive_notify alive
    rw [alive_of_custody (m := { m with frames := added ++ below })] at stored
    · exact .inl (calls.alive stored)
    · exact custody_observe _ value
    · rfl
  | broken moves custody collecting frames _ =>
    rcases alive_iff.mp alive with held | ⟨f, member, -⟩
    · rcases holds_iff.mp held with owned | target
      · rw [custody s] at owned
        exact .inl (alive_iff.mpr (.inl (holds_iff.mpr (.inl owned))))
      · exact .inl (alive_of_target (collecting.subset target))
    · rw [frames] at member
      cases member

/-- A notification removes entries from one list. -/
theorem entries_notify (m : Machine σ) (d d' : DepId) :
    (m.notify d).world.entries d' =
      if d = d' then (m.world.entries d').filter m.alive else m.world.entries d' := by
  by_cases same : d = d'
  · subst same
    cases listed : m.world.deps.get? d.index <;>
      simp [Machine.notify, push, World.entries, Arena.get?_modify, listed]
  · have apart : d.index ≠ d'.index := fun eq => same (by cases d; cases d'; simp_all)
    simp [Machine.notify, push, World.entries, Arena.get?_modify, same, apart]

/-- Subscribers are never removed. -/
theorem Turn.known {m m' : Machine σ} (turn : Turn m m') (known : m.world.Known s) :
    m'.world.Known s := by
  cases turn with
  | still => exact known
  | calm _ _ _ moves => exact moves.known known
  | @tell top added below s =>
    rcases update_cases { m with frames := added ++ below } s with
      ⟨_, same, -⟩ | ⟨x, _, -, -, -, same⟩
    · rw [same]
      exact known
    · rw [same]
      apply (moves_react _ _ _).known
      simpa [Known, remember] using known
  | notify => exact known
  | store => exact (moves_observe _ _).known known
  | broken moves => exact moves.known known

theorem Turn.entrusts {m m' : Machine σ} (turn : Turn m m') : Entrusts m.world m'.world := by
  cases turn with
  | still => exact entrusts_of_custody rfl
  | calm _ _ _ _ entrusts => exact entrusts
  | tell => exact entrusts_of_custody (custody_update _ _)
  | notify => exact entrusts_of_custody rfl
  | store => exact entrusts_of_custody (custody_observe _ _)
  | broken _ custody => exact fun s => .inl (Nat.le_of_eq (custody s))

private theorem sound_notify {m : Machine σ} (sound : m.world.Sound) (d : DepId) :
    (m.notify d).world.Sound := by
  have tracks : Tracks m.world (m.notify d).world :=
    tracks_of_objects sound rfl (by simp [Machine.notify, push])
  refine tracks.sound sound ?_ sound.targets sound.tidy
  intro s d' listed
  rw [entries_notify] at listed
  split at listed
  · exact sound.entries (List.mem_of_mem_filter listed)
  · exact sound.entries listed

private theorem sound_update {m : Machine σ} (sound : m.world.Sound) (s : SubscriberId) :
    (m.update s).world.Sound := by
  rcases update_cases m s with ⟨_, same, -⟩ | ⟨x, _, -, -, -, same⟩
  · rw [same]
    exact sound
  · rw [same]
    exact (moves_react _ _ _).sound (sound_remember sound s _)

/-- The frames that a step leaves keep those alive that they are going to tell. -/
private theorem Turn.waits {m m' : Machine σ} (turn : Turn m m')
    (waits : ∀ {f s}, f ∈ m.frames → s ∈ f.pending → f.keeps s = true) (member : f ∈ m'.frames)
    (pending : s ∈ f.pending) : f.keeps s = true := by
  have old : ∀ {top below}, m.frames = top :: below → f ∈ below → f.keeps s = true :=
    fun due listed => waits (due ▸ List.mem_cons_of_mem _ listed) pending
  have after : ∀ {top added below live}, m.Calls top added below → (∀ f ∈ added, f.pending = []) →
      f ∈ .notifying live live :: (added ++ below) → f.keeps s = true := by
    intro top added below live calls nobody member
    rcases List.mem_cons.mp member with rfl | rest
    · simpa [Frame.keeps, Frame.pending] using pending
    · rcases List.mem_append.mp rest with new | listed
      · rw [nobody f new] at pending
        cases pending
      · exact old calls.due listed
  cases turn with
  | still => exact waits member pending
  | calm calls _ nobody _ _ _ frames =>
    rw [frames] at member
    rcases List.mem_append.mp member with new | listed
    · rw [nobody f new] at pending
      cases pending
    · exact old calls.due listed
  | @tell top added below t calls told _ still =>
    obtain ⟨programs, frames, none⟩ := frames_update { m with frames := added ++ below } t
    rw [frames] at member
    rcases List.mem_append.mp member with new | rest
    · obtain ⟨p, rfl⟩ := none f new
      cases pending
    · rcases List.mem_append.mp rest with new | listed
      · obtain ⟨waited, kept⟩ := still f new s pending
        exact kept (waits (calls.due ▸ List.mem_cons_self) waited)
      · exact old calls.due listed
  | notify calls _ nobody _ => exact after calls nobody member
  | store calls _ nobody _ _ _ => exact after calls nobody member
  | broken _ _ _ frames =>
    rw [frames] at member
    cases member

theorem Turn.sound {m m' : Machine σ} (turn : Turn m m') (sound : m.Sound) : m'.Sound where
  world := by
    cases turn with
    | still => exact sound.world
    | calm _ _ _ moves => exact moves.sound sound.world
    | @tell top added below s =>
      have caller : World.Sound { m with frames := added ++ below }.world := sound.world
      exact sound_update caller s
    | @notify top added below _ _ _ d =>
      have caller : World.Sound { m with frames := added ++ below }.world := sound.world
      exact sound_notify caller d
    | store => exact sound_notify ((moves_observe _ _).sound (sound_replace sound.world _ _ _)) _
    | broken moves => exact moves.sound sound.world
  known alive := by
    rcases turn.alive alive with before | ⟨-, known⟩
    · exact turn.known (sound.known before)
    · exact known
  single {s} := by
    rcases turn.entrusts s with fewer | ⟨unknown, -, one⟩
    · exact Nat.le_trans fewer sound.single
    · have none : m.world.owners s = 0 := by
        by_contra owned
        have held := holds_iff.mpr (.inl (Nat.pos_of_ne_zero owned))
        exact unknown (sound.known (alive_iff.mpr (.inl held)))
      rw [none] at one
      exact one
  waits := turn.waits sound.waits

/-- A machine steps from a sound state to a sound one, by one of the turns. -/
theorem step_sound {m : Machine σ} (sound : m.Sound) : m.step.Sound :=
  (step_turn fun _ => sound.known).sound sound

/-- Starting a program changes neither the world nor who is alive in an idle machine. -/
theorem start_sound {m : Machine σ} (sound : m.Sound) (host : σ) (p : Program σ) :
    (start { m with host := host } p).Sound where
  world := sound.world
  known alive := by
    rcases alive_iff.mp alive with held | ⟨f, member, keeps⟩
    · exact sound.known (alive_iff.mpr (.inl held))
    · obtain rfl := List.mem_singleton.mp member
      cases keeps
  single := sound.single
  waits member pending := by
    obtain rfl := List.mem_singleton.mp member
    cases pending

theorem Leads.sound {m m' : Machine σ} (led : Leads P m m') (sound : m.Sound) : m'.Sound := by
  induction led with
  | refl => exact sound
  | step _ _ ih => exact step_sound ih
  | start _ _ host p _ ih => exact start_sound ih host p

private theorem initial_sound (host : σ) : ({ host := host } : Machine σ).Sound := by
  have untracked : ∀ o key, ({} : World).slot? o key = none := fun _ _ => rfl
  have unlisted : ∀ d, ({} : World).entries d = [] := fun _ => rfl
  have unowned : ∀ s, ({} : World).owners s = 0 := fun _ => rfl
  refine ⟨⟨?_, ?_, ?_, ?_, ?_⟩, ?_, ?_, fun member => absurd member List.not_mem_nil⟩
  · intro o key slot d found
    rw [untracked] at found
    cases found
  · intro o key slot d o' key' slot' found
    rw [untracked] at found
    cases found
  · intro s d listed
    rw [unlisted] at listed
    cases listed
  · exact fun collecting => absurd collecting List.not_mem_nil
  · exact fun found => nomatch found
  · intro s alive
    rcases alive_iff.mp alive with held | ⟨f, member, -⟩
    · rcases holds_iff.mp held with owned | target
      · rw [unowned] at owned
        cases owned
      · cases target
    · cases member
  · intro s
    rw [unowned]
    exact Nat.zero_le _

theorem reachable_sound {m : Machine σ} (reachable : m.Reachable) : m.Sound := by
  obtain ⟨host, led⟩ := reachable
  exact led.sound (initial_sound host)

/-- While something is in progress nothing has been broken off. -/
theorem Turn.unbroken {m m' : Machine σ} (turn : Turn m m')
    (unbroken : m.frames ≠ [] → m.failure = none) (busy : m'.frames ≠ []) : m'.failure = none := by
  have before : ∀ {top added below}, m.Calls top added below → m.failure = none :=
    fun calls => unbroken (by simp [calls.due])
  cases turn with
  | still idle => exact absurd idle busy
  | calm calls _ _ _ _ _ _ failure => exact failure.trans (before calls)
  | @tell top added below s calls =>
    rcases update_cases { m with frames := added ++ below } s with
      ⟨_, same, -⟩ | ⟨_, _, -, -, -, same⟩
    · rw [same]
      exact before calls
    · rw [same]
      exact before calls
  | notify calls => exact before calls
  | store calls => exact before calls
  | broken _ _ _ frames => exact absurd frames busy

theorem unbroken_of_busy {m : Machine σ} (reachable : m.Reachable) (busy : m.frames ≠ []) :
    m.failure = none := by
  obtain ⟨host, led⟩ := reachable
  induction led with
  | refl => exact absurd rfl busy
  | @step a led _ ih =>
    have sound : a.Sound := reachable_sound ⟨host, led⟩
    exact (step_turn fun _ => sound.known).unbroken ih busy
  | start => rfl

end Machine
end DataBinding
