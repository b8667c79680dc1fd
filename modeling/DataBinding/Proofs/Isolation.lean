import DataBinding.Proofs.Deliveries
import DataBinding.Proofs.Registration
import DataBinding.Proofs.Rounds
import DataBinding.Proofs.Separation

/-! Isolation. View models that were mounted from the same options share nothing: however scalars are
written through what the data of one contain, nothing changes that can be reached from the data of the
other, whichever nodes both are bound to. -/
namespace DataBinding

/-- The request writes a scalar into one of certain objects. -/
def Request.WritesScalar {P : Type} (w : World) (into : ObjectId → Prop) : Request P → Prop
  | .write o _ v => into o ∧ v.isObject = false
  | .assign vm _ v => (∀ view, w.viewModel? vm = some view → into view.data) ∧ v.isObject = false
  | _ => False

/-- Sends requests, one after the other. -/
def Program.inTurn {σ : Type} : List (Request (Program σ)) → Program σ
  | [] => .done
  | r :: rest => .call r fun _ => inTurn rest

namespace World

/-- Whatever can be reached from an object is as it was: the objects, their keys and values, and the
entries of their dependency lists. -/
structure Untouched (w : World) (data : ObjectId) (w' : World) : Prop where
  contains : w'.Contains data o ↔ w.Contains data o
  properties : w.Contains data o → w'.properties o = w.properties o
  entries : w.Lists data d → w'.entries d = w.entries d

namespace Untouched

theorem of_properties {w w' : World}
    (properties : ∀ o, w.Contains data o → w'.properties o = w.properties o)
    (entries : ∀ d, w.Lists data d → w'.entries d = w.entries d) : Untouched w data w' where
  contains {o} := by
    constructor
    · intro reached
      induction reached with
      | self => exact .self
      | @through x slot y _ there leads ih => exact ih.through (properties x ih ▸ there) leads
    · intro reached
      induction reached with
      | self => exact .self
      | @through x slot y before there leads ih =>
        exact ih.through ((properties x before).symm ▸ there) leads
  properties := properties _
  entries := entries _

theorem of_same {w w' : World} (objects : w'.objects = w.objects) (deps : w'.deps = w.deps) :
    Untouched w data w' :=
  .of_properties (fun o _ => by rw [World.properties, World.properties, objects])
    fun d _ => by rw [World.entries, World.entries, deps]

theorem lists {w w' : World} (untouched : Untouched w data w') (listed : w.Lists data d) :
    w'.Lists data d := by
  obtain ⟨o, reached, slot, there, own⟩ := listed
  exact ⟨o, untouched.contains.mpr reached, slot, untouched.properties reached ▸ there, own⟩

theorem trans {a b c : World} (first : Untouched a data b) (second : Untouched b data c) :
    Untouched a data c where
  contains := second.contains.trans first.contains
  properties reached :=
    (second.properties (first.contains.mpr reached)).trans (first.properties reached)
  entries listed := (second.entries (first.lists listed)).trans (first.entries listed)

end Untouched

theorem observe_scalar {v : Value} (scalar : v.isObject = false) (w : World) : w.observe v = w := by
  cases v with
  | object o => cases scalar
  | _ => simp [observe, observeAll]

/-- Writing a scalar concerns one object. -/
theorem properties_write (w : World) (key : String) (scalar : v.isObject = false) (other : x ≠ o) :
    (w.write o key v).1.properties x = w.properties x := by
  unfold write
  split
  · exact properties_modifyObject_ne w _ other
  · split
    · exact properties_modifyObject_ne w _ other
    · split
      · rfl
      · simp only [observe_scalar scalar]
        exact properties_modifyObject_ne w _ other

/-- A watcher that writes into a page, when it has just been added. -/
private theorem writes_watch (w : World) (root : ObjectId) (key : String)
    (writes : ∀ c, reaction ≠ .callback c) :
    (w.watch root key reaction).1.Writes (w.watch root key reaction).2 := by
  refine ⟨w.newWatcher root key reaction, ?_, writes⟩
  have last : (w.watch root key reaction).2 = ⟨w.subscribers.size⟩ := rfl
  simp [watcher?, subscriber?, subscribers_watch, last, Arena.get?_push, Subscriber.watcher?]

/-- Watchers have been added that write into pages. -/
structure Staffs (w : World) (added : List SubscriberId) (w' : World) : Prop where
  writes : ∀ s ∈ added, w'.Writes s
  moves : Moves w w'

namespace Staffs

theorem of_moves {w w' : World} (moves : Moves w w') : Staffs w [] w' :=
  ⟨fun _ among => (nomatch among), moves⟩

theorem append {a b c : World} (first : Staffs a xs b) (second : Staffs b ys c) :
    Staffs a (xs ++ ys) c where
  writes s among := by
    rcases List.mem_append.mp among with early | late
    · obtain ⟨x, found, writes⟩ := first.writes s early
      exact ⟨x, second.moves.grows.watcher found, writes⟩
    · exact second.writes s late
  moves := first.moves.trans second.moves

theorem binding (data : ObjectId) (n : NodeId) : BindingKeeps data n Staffs where
  nil _ := of_moves .refl
  append := append
  read w key := of_moves (moves_read w data key)
  setText w content := of_moves (moves_setText w n content)
  setControlValue w value := of_moves (moves_setControlValue w n value)
  writeBack w key := of_moves (moves_listen w n (.writeBack data key))
  watch w key reaction writes := by
    refine ⟨fun s among => ?_, .single (.watch w data key reaction)⟩
    obtain rfl := List.mem_singleton.mp among
    exact writes_watch w data key writes

theorem bind {w w' : World} (bound : w.bind data root = some (w', watchers)) :
    Staffs w watchers w' :=
  BindingKeeps.bind (binding data) bound

end Staffs

/-- The watchers of a view model write into its page. -/
theorem writes_mountOptions {w w' : World}
    (mounted : w.mountOptions document options = some (.ok (w', vm)))
    (found : w'.viewModel? vm = some view) (member : s ∈ view.watchers) : w'.Writes s := by
  obtain ⟨bound, -, binds, rfl⟩ := mountOptions_eq_ok mounted found
  obtain ⟨x, watching, writes⟩ := (Staffs.bind binds).writes s member
  exact ⟨x, watching, writes⟩

end World

namespace Machine
open World

variable {σ : Type} {rs : List (Request (Program σ))}

/-- Writing a scalar touches nothing that does not contain the object. -/
theorem untouched_write {m : Machine σ} (sound : m.world.Sound) (key : String)
    (away : ¬m.world.Contains data o) (scalar : v.isObject = false) :
    m.world.Untouched data (m.write o key v).world := by
  refine .of_properties (fun x reached => ?_) fun d listed => ?_
  · have other : x ≠ o := fun same => away (same ▸ reached)
    rw [properties, objects_write]
    exact properties_write m.world key scalar other
  · have same := (write_same m.world o key v).2.2 d
    unfold Machine.write
    split
    · rename_i written
      rwa [written] at same
    · rename_i w d' written
      obtain ⟨slot, found, tracked, -, -⟩ := write_eq_some written
      have other : d' ≠ d := by
        rintro rfl
        obtain ⟨x, reached, slot', there', listed'⟩ := listed
        obtain ⟨i, there, -⟩ := Properties.find?_eq_some_iff.mp found
        obtain rfl := sound.object_of_dep (List.mem_of_getElem? there) tracked there' listed'
        exact away reached
      rw [entries_notify, if_neg other]
      rwa [written] at same

/-- What may be in progress while requests are sent in turn. -/
def sending (rs : List (Request (Program σ))) : Frame σ → Prop
  | .program p => ∃ rest, rest ⊆ rs ∧ p = .inTurn rest
  | .notifying _ _ => True
  | .keeping _ => True
  | .dispatching _ _ => False
  | .scope => False

/-- Sending a request that writes a scalar is one write, under whoever keeps a view model meanwhile; the
view model may also be missing. -/
theorem step_inTurn {m : Machine σ} (due : m.frames = .program (.inTurn (r :: more)) :: below)
    (writes : r.WritesScalar m.world into) :
    m.step = { m with frames := .program (.inTurn more) :: below } ∨
      ∃ o key v keeps, into o ∧ v.isObject = false ∧
        (keeps = [] ∨
          ∃ vm view, m.world.viewModel? vm = some view ∧ keeps = [.keeping view.watchers]) ∧
        m.step = Machine.write { m with frames := keeps ++ .program (.inTurn more) :: below } o key v := by
  cases r with
  | write o key v =>
    refine .inr ⟨o, key, v, [], writes.1, writes.2, .inl rfl, ?_⟩
    simp [step, due, Program.inTurn, request, push]
  | assign vm key v =>
    cases found : m.world.viewModel? vm with
    | none =>
      left
      simp [step, due, Program.inTurn, request, push, found]
    | some view =>
      refine .inr ⟨view.data, key, v, [.keeping view.watchers], writes.1 view found, writes.2,
        .inr ⟨vm, view, found, rfl⟩, ?_⟩
      simp [step, due, Program.inTurn, request, push, found]
  | _ => cases writes

/-- What a step leaves alone while only scalars are written, and those elsewhere. -/
structure Spared (data : ObjectId) (rs : List (Request (Program σ))) (m m' : Machine σ) : Prop where
  untouched : m.world.Untouched data m'.world
  size : m'.world.subscribers.size = m.world.subscribers.size
  viewModels : m'.world.viewModels = m.world.viewModels
  frames : ∀ f ∈ m'.frames, sending rs f
  failure : m'.failure = m.failure

/-- Requests are being sent that write scalars into objects of which nothing is contained in the data,
and all who can be told write into pages. -/
structure Sends (data : ObjectId) (rs : List (Request (Program σ))) (m : Machine σ) : Prop where
  sound : m.Sound
  pages : m.alive s = true → m.world.Writes s
  frames : ∀ f ∈ m.frames, sending rs f
  away : ∀ r ∈ rs, r.WritesScalar m.world (¬m.world.Contains data ·)

theorem subscribers_machine_write (m : Machine σ) (o : ObjectId) (key : String) (v : Value) :
    (m.write o key v).world.subscribers = m.world.subscribers ∧
      (m.write o key v).world.viewModels = m.world.viewModels ∧
      (m.write o key v).failure = m.failure ∧
      ∃ begun, (m.write o key v).frames = begun ++ m.frames ∧
        ∀ f ∈ begun, ∃ told, f = .notifying told told := by
  obtain ⟨-, subscribers, -⟩ := write_same m.world o key v
  have viewModels := viewModels_of_custody (custody_write m.world o key v)
  unfold Machine.write
  cases written : m.world.write o key v with
  | mk w d? =>
    rw [written] at subscribers viewModels
    cases d? with
    | none => exact ⟨subscribers, viewModels, rfl, [], rfl, fun _ among => (nomatch among)⟩
    | some d =>
      refine ⟨subscribers, viewModels, rfl, [_], rfl, fun f among => ?_⟩
      exact ⟨_, List.mem_singleton.mp among⟩

private theorem spared_write {m caller : Machine σ} (sound : m.world.Sound)
    (world : caller.world = m.world) (failure : caller.failure = m.failure)
    (frames : ∀ f ∈ caller.frames, sending rs f) (key : String)
    (away : ¬m.world.Contains data o) (scalar : v.isObject = false) :
    Spared data rs m (caller.write o key v) := by
  obtain ⟨subscribers, viewModels, same, begun, begins, tells⟩ := subscribers_machine_write caller o key v
  refine ⟨?_, ?_, ?_, ?_, same.trans failure⟩
  · rw [← world] at sound away ⊢
    exact untouched_write sound key away scalar
  · rw [subscribers, world]
  · rw [viewModels, world]
  · intro f among
    rw [begins] at among
    rcases List.mem_append.mp among with new | old
    · obtain ⟨told, rfl⟩ := tells f new
      trivial
    · exact frames f old

private theorem spared_of_world {m m' : Machine σ} (world : m'.world = m.world)
    (frames : ∀ f ∈ m'.frames, sending rs f) (failure : m'.failure = m.failure) :
    Spared data rs m m' :=
  ⟨world ▸ .of_same rfl rfl, by rw [world], by rw [world], frames, failure⟩

/-- Telling a watcher that writes into a page calls nothing. -/
private theorem spared_update {m : Machine σ} (frames : ∀ f ∈ above, sending rs f)
    (writes : m.world.Writes s) : Spared data rs m (Machine.update { m with frames := above } s) := by
  have told : Machine.update { m with frames := above } s =
      { m with frames := above, world := m.world.tell s } := update_writes writes
  obtain ⟨objects, deps, size, custody⟩ := tell_same m.world s
  rw [told]
  exact ⟨.of_same objects deps, size, viewModels_of_custody custody, frames, rfl⟩

theorem Sends.spared {m : Machine σ} (sends : Sends data rs m) : Spared data rs m m.step := by
  have world := sends.sound.world
  cases due : m.frames with
  | nil =>
    have still : m.step = m := by simp [step, due]
    rw [still]
    exact spared_of_world rfl sends.frames rfl
  | cons top rest =>
    have pending : ∀ f ∈ top :: rest, sending rs f := due ▸ sends.frames
    obtain ⟨here, others⟩ := List.forall_mem_cons.mp pending
    cases top with
    | program p =>
      obtain ⟨due', fewer, rfl⟩ := here
      cases due' with
      | nil =>
        have stepped : m.step = { m with frames := rest } := by simp [step, due, Program.inTurn]
        rw [stepped]
        exact spared_of_world rfl others rfl
      | cons r more =>
        have next : sending rs (.program (.inTurn more)) :=
          ⟨more, fun _ among => fewer (List.mem_cons_of_mem _ among), rfl⟩
        have now : ∀ f ∈ Frame.program (.inTurn more) :: rest, sending rs f :=
          List.forall_mem_cons.mpr ⟨next, others⟩
        rcases step_inTurn due (sends.away r (fewer List.mem_cons_self)) with missing | written
        · rw [missing]
          exact spared_of_world rfl now rfl
        · obtain ⟨o, key, v, keeps, away, scalar, kept, stepped⟩ := written
          let caller : Machine σ := { m with frames := keeps ++ .program (.inTurn more) :: rest }
          have same : caller.world = m.world := rfl
          rw [stepped]
          refine spared_write world same rfl (fun f among => ?_) key away scalar
          rcases List.mem_append.mp among with keeping | old
          · rcases kept with rfl | ⟨vm, view, -, rfl⟩
            · cases keeping
            · obtain rfl := List.mem_singleton.mp keeping
              trivial
          · exact now f old
    | notifying told untold =>
      cases untold with
      | nil =>
        have stepped : m.step = { m with frames := rest } := by simp [step, due]
        rw [stepped]
        exact spared_of_world rfl others rfl
      | cons s untold =>
        have alive : m.alive s = true := by
          have top : Frame.notifying told (s :: untold) ∈ m.frames := due ▸ List.mem_cons_self
          exact alive_iff.mpr (.inr ⟨_, top, sends.sound.waits top List.mem_cons_self⟩)
        have stepped : m.step =
            Machine.update { m with frames := .notifying told untold :: rest } s := by
          simp [step, due, push]
        rw [stepped]
        exact spared_update (List.forall_mem_cons.mpr ⟨trivial, others⟩) (sends.pages alive)
    | keeping kept =>
      have stepped : m.step = { m with frames := rest } := by simp [step, due]
      rw [stepped]
      exact spared_of_world rfl others rfl
    | dispatching n more => exact here.elim
    | scope => exact here.elim

private theorem writes_away {w w' : World} {r : Request (Program σ)}
    (writes : r.WritesScalar w (¬w.Contains data ·)) (viewModels : w'.viewModels = w.viewModels)
    (untouched : w.Untouched data w') : r.WritesScalar w' (¬w'.Contains data ·) := by
  cases r with
  | write o key v => exact ⟨fun reached => writes.1 (untouched.contains.mp reached), writes.2⟩
  | assign vm key v =>
    refine ⟨fun view found reached => ?_, writes.2⟩
    rw [viewModel?, viewModels] at found
    exact writes.1 view found (untouched.contains.mp reached)
  | _ => cases writes

theorem Sends.step {m : Machine σ} (sends : Sends data rs m) : Sends data rs m.step := by
  have spared := sends.spared
  refine ⟨step_sound sends.sound, fun {s} alive => ?_, spared.frames, fun r among => ?_⟩
  · have turn := step_turn fun _ => sends.sound.known
    rcases turn.alive alive with before | ⟨new, known⟩
    · obtain ⟨x, found, writes⟩ := sends.pages before
      exact ⟨_, watcher?_step_gives sends.sound found, writes⟩
    · rw [Known, spared.size] at known
      exact absurd known new
  · exact writes_away (sends.away r among) spared.viewModels spared.untouched

theorem Sends.run {m : Machine σ} (sends : Sends data rs m) (n : Nat) :
    Sends data rs (run n m) ∧ m.world.Untouched data (run n m).world ∧
      (Machine.run n m).failure = m.failure := by
  induction n with
  | zero => exact ⟨sends, .of_same rfl rfl, rfl⟩
  | succ n ih =>
    obtain ⟨now, untouched, failure⟩ := ih
    rw [run_succ]
    exact ⟨now.step, untouched.trans now.spared.untouched, now.spared.failure.trans failure⟩

theorem alive_of_program {m : Machine σ} (due : m.frames = [.program p]) (s : SubscriberId) :
    m.alive s = m.world.holds s := by
  refine alive_of_kept (fun f member s keeps => ?_) s
  rw [due] at member
  obtain rfl := List.mem_singleton.mp member
  cases keeps

/-- The machine comes to its end when all requests have been sent. -/
theorem Sends.ends {m : Machine σ} (sends : Sends data rs m)
    (due : m.frames = [.program (.inTurn rest)]) (fewer : rest ⊆ rs) :
    ∃ m', m.Comes m' ∧ m'.frames = [] := by
  induction rest generalizing m with
  | nil => exact ⟨_, comes_done due, rfl⟩
  | cons r rest ih =>
    obtain ⟨here, later⟩ := List.cons_subset.mp fewer
    have goes : ∀ {m'}, m.Comes m' → m'.frames = [.program (.inTurn rest)] →
        ∃ ended, m.Comes ended ∧ ended.frames = [] := by
      rintro m' ⟨n, rfl⟩ due'
      obtain ⟨ended, comes, idle⟩ := ih (sends.run n).1 due' later
      exact ⟨ended, .trans ⟨n, rfl⟩ comes, idle⟩
    have writes : ∀ d, ∀ s ∈ m.world.entries d, m.world.holds s = true → m.world.Writes s :=
      fun d s _ held => sends.pages (alive_iff.mpr (.inl held))
    rcases step_inTurn due (sends.away r here) with missing | written
    · exact goes (Comes.of_step missing) rfl
    · obtain ⟨o, key, v, keeps, -, -, kept, stepped⟩ := written
      have owned : ∀ s, Machine.alive { m with frames := keeps ++ [.program (.inTurn rest)] } s =
          m.world.holds s := by
        refine alive_of_kept fun f member s keeping => ?_
        rcases List.mem_append.mp member with above | last
        · rcases kept with rfl | ⟨vm, view, found, rfl⟩
          · cases above
          · obtain rfl := List.mem_singleton.mp above
            exact holds_of_viewModel found (List.contains_iff_mem.mp keeping)
        · obtain rfl := List.mem_singleton.mp last
          cases keeping
      have told := (Comes.of_step stepped).trans (comes_write owned writes o key v)
      rcases kept with rfl | ⟨vm, view, -, rfl⟩
      · exact goes told rfl
      · let keeping : Machine σ := { m with
          frames := [.keeping view.watchers, .program (.inTurn rest)], world := m.world.stored o key v }
        have popped : keeping.step = { keeping with frames := [.program (.inTurn rest)] } := by
          simp [Machine.step, keeping]
        exact goes (told.trans (Comes.of_step popped)) rfl

end Machine

/-- Whoever does nothing but write scalars through what `a` contains, while these are the only
subscribers, comes to an end and at no moment changes anything that can be reached from `b`. -/
def World.Shielded (w : World) (watchers : List SubscriberId) (a b : ObjectId) : Prop :=
  ∀ (σ : Type) (m : Machine σ) (rs : List (Request (Program σ))),
    m.world = w → m.frames = [.program (.inTurn rs)] → m.failure = none →
    (∀ s, m.alive s = true → s ∈ watchers) →
    (∀ r ∈ rs, r.WritesScalar w (w.Contains a)) →
    (∃ n, (Machine.run n m).idle = true ∧ (Machine.run n m).failure = none) ∧
      ∀ n, w.Untouched b (Machine.run n m).world

namespace Machine
open World

variable {σ : Type}

theorem shielded_of_apart {m : Machine σ} (sound : m.Sound) (apart : m.world.Apart a b)
    (writes : ∀ s ∈ watchers, m.world.Writes s) : m.world.Shielded watchers a b := by
  intro τ m' rs world due unbroken own scalars
  have held : ∀ s, m'.alive s = true → m.alive s = true := fun s alive => by
    rw [alive_of_program due, world] at alive
    exact alive_iff.mpr (.inl alive)
  have sends : Sends b rs m' := by
    refine ⟨⟨world ▸ sound.world, fun {s} alive => ?_, world ▸ sound.single,
        fun {f s} member pending => ?_⟩,
      fun {s} alive => world ▸ writes s (own s alive), fun f member => ?_, fun r among => ?_⟩
    · exact world ▸ sound.known (held s alive)
    · rw [due] at member
      obtain rfl := List.mem_singleton.mp member
      cases pending
    · rw [due] at member
      obtain rfl := List.mem_singleton.mp member
      exact ⟨rs, fun _ => id, rfl⟩
    · have scalar := scalars r among
      rw [world]
      cases r with
      | write o key v => exact ⟨apart.objects scalar.1, scalar.2⟩
      | assign vm key v =>
        exact ⟨fun view found => apart.objects (scalar.1 view found), scalar.2⟩
      | _ => cases scalar
  refine ⟨?_, fun n => world ▸ (sends.run n).2.1⟩
  obtain ⟨ended, ⟨n, rfl⟩, idle⟩ := sends.ends due fun _ => id
  exact ⟨n, by rw [Machine.idle, idle]; rfl, (sends.run n).2.2.trans unbroken⟩

/-- Watchers that write into pages do so for good. -/
theorem Takes.writes {m m' : Machine σ} (takes : Takes P m m') (reachable : m.Reachable)
    (writes : m.world.Writes s) : m'.world.Writes s := by
  induction takes with
  | refl => exact writes
  | @step a takes _ ih =>
    obtain ⟨x, found, reacts⟩ := ih
    exact ⟨_, watcher?_step_gives (reachable_sound (takes.reachable reachable)) found, reacts⟩
  | start _ _ _ _ ih => exact ih

/-- The next step mounts options, and this is the view model. -/
def MountsOptions (m : Machine σ) (options : Options) (view : ViewModel) : Prop :=
  ∃ document next below vm,
    m.frames = .program (.call (.act (.mountOptions options document)) next) :: below ∧
    m.world.mountOptions document options = some (.ok (m.step.world, vm)) ∧
    m.step.world.viewModel? vm = some view

/-- View models mounted from the same options, in one document or in two, whatever has been done before
and in between by a host program that makes no references up. The data of each are a tree of new
objects that mirrors the document of the options, tracked throughout; nothing can be reached from the
data of both; and as long as nobody else is told of changes, scalars may be written through the data
of one, in any number and order, without any effect on what can be reached from the data of the
other. -/
theorem mounts_share_nothing {host : σ} {m₁ m₂ : Machine σ}
    (begun : Takes (fun m => m.honest = true) { host := host } m₁)
    (first : m₁.MountsOptions options view₁)
    (between : Takes (fun m => m.honest = true) m₁.step m₂)
    (second : m₂.MountsOptions options view₂) :
    Plants m₁.world options.data view₁.data m₁.step.world ∧
    Plants m₂.world options.data view₂.data m₂.step.world ∧
    m₂.step.world.Apart view₁.data view₂.data ∧
    m₂.step.world.Shielded (view₁.watchers ++ view₂.watchers) view₁.data view₂.data ∧
    m₂.step.world.Shielded (view₁.watchers ++ view₂.watchers) view₂.data view₁.data := by
  obtain ⟨document₁, next₁, below₁, vm₁, due₁, mounted₁, found₁⟩ := first
  obtain ⟨document₂, next₂, below₂, vm₂, due₂, mounted₂, found₂⟩ := second
  have plants₁ := plants_mountOptions mounted₁ found₁
  have plants₂ := plants_mountOptions mounted₂ found₂
  have honest : m₁.honest = true := by simp [Machine.honest, due₁, Request.stores]
  have reachable₁ : m₁.step.Reachable := (begun.step honest).reachable (reachable_initial host)
  have reachable₂ : m₂.Reachable := between.reachable reachable₁
  have sound : m₂.step.Sound := step_sound (reachable_sound reachable₂)
  have initial : ({ host := host } : Machine σ).world.Grounded := fun _ _ there =>
    absurd there List.not_mem_nil
  have grounded : m₂.world.Grounded := between.grounded ((begun.step honest).grounded initial)
  have existing : view₁.data.index < m₂.world.objects.size :=
    Nat.lt_of_lt_of_le (plants₁.new .self).2 between.size
  have apart : m₂.step.world.Apart view₁.data view₂.data :=
    plants₂.apart grounded (fun o old => entries_mountOptions mounted₂ found₂ old) sound.world existing
  have writes : ∀ s ∈ view₁.watchers ++ view₂.watchers, m₂.step.world.Writes s := by
    intro s among
    rcases List.mem_append.mp among with early | late
    · have still := between.writes reachable₁ (writes_mountOptions mounted₁ found₁ early)
      obtain ⟨x, found, reacts⟩ := still
      exact ⟨_, watcher?_step_gives (reachable_sound reachable₂) found, reacts⟩
    · exact writes_mountOptions mounted₂ found₂ late
  exact ⟨plants₁, plants₂, apart, shielded_of_apart sound apart writes,
    shielded_of_apart sound apart.symm writes⟩

/-- Data with a text, and a sequence that holds an object. -/
def twinOptions : Options :=
  ⟨"div", .object [("title", .string "x"),
    ("list", .array [.null, .object [("done", .bool true)]])]⟩

/-- Options are mounted twice on the same element of one document; in between the data of the first
view model get another key. -/
def mountingTwins : Program Unit :=
  .call (.act (.mountOptions twinOptions ⟨0⟩)) fun _ =>
  .call (.write ⟨2⟩ "late" .null) fun _ =>
  .call (.act (.mountOptions twinOptions ⟨0⟩)) fun _ => .done

def settingUp : Program Unit :=
  .call (.act (.newElement "body")) fun _ =>
  .call (.act (.newElement "div")) fun _ =>
  .call (.act (.newElement "p")) fun _ =>
  .call (.act (.setAttribute ⟨2⟩ "v-text" "title")) fun _ =>
  .call (.act (.appendChild ⟨1⟩ ⟨2⟩)) fun _ =>
  .call (.act (.appendChild ⟨0⟩ ⟨1⟩)) fun _ => mountingTwins

def firstTwin : Machine Unit := run 6 (start { host := () } settingUp)

def secondTwin : Machine Unit := firstTwin.step.step

/-- Scalars are written into whatever the data of the first view model contain. -/
def twinWrites : List (Request (Program Unit)) :=
  [.write ⟨1⟩ "0" (.bool false), .assign ⟨0⟩ "title" (.string "q"), .write ⟨2⟩ "list" .null,
    .write ⟨0⟩ "done" .null]

def writingTwin : Machine Unit := { secondTwin.step with frames := [.program (.inTurn twinWrites)] }

private theorem step_of_mounted {m : Machine σ}
    (due : m.frames = .program (.call (.act (.mountOptions options document)) next) :: below)
    (ran : m.world.mountOptions document options = some (.ok (w, vm))) :
    m.step = { m with world := w, frames := .program (next (.viewModel vm)) :: below } := by
  simp [Machine.step, due, request, perform, ran, push]

/-- The view model that options are mounted as. -/
private def mounting? (w : World) (options : Options) (document : NodeId) : Option ViewModel :=
  match w.mountOptions document options with
  | some (.ok (w, vm)) => w.viewModel? vm
  | _ => none

private theorem exists_of_mounting {w : World}
    (mounts : mounting? w options document = some view) : ∃ w' vm,
      w.mountOptions document options = some (.ok (w', vm)) ∧ w'.viewModel? vm = some view := by
  unfold mounting? at mounts
  split at mounts
  · rename_i w' vm ran
    exact ⟨w', vm, ran, mounts⟩
  · cases mounts

private theorem mountsOptions_of_mounting {m : Machine σ}
    (due : m.frames = .program (.call (.act (.mountOptions options document)) next) :: below)
    (mounts : mounting? m.world options document = some view) : m.MountsOptions options view := by
  obtain ⟨w, vm, ran, found⟩ := exists_of_mounting mounts
  have world : m.step.world = w := by rw [step_of_mounted due ran]
  exact ⟨document, next, below, vm, due, world ▸ ran, world ▸ found⟩

private theorem takes_run {P : Machine σ → Prop} {m : Machine σ} {n : Nat}
    (holds : ∀ i < n, P (run i m)) : Takes P m (run n m) := by
  induction n with
  | zero => exact .refl
  | succ n ih =>
    rw [run_succ]
    exact (ih fun i less => holds i (Nat.lt_succ_of_lt less)).step (holds n (Nat.lt_succ_self n))

private theorem first_due : firstTwin.frames = [.program mountingTwins] := by
  with_unfolding_all rfl

private theorem first_mounting :
    mounting? firstTwin.world twinOptions ⟨0⟩ = some ⟨⟨1⟩, ⟨2⟩, [⟨0⟩]⟩ := by
  decide +kernel

private theorem between_due : firstTwin.step.frames = [.program (.call (.write ⟨2⟩ "late" .null)
    fun _ => .call (.act (.mountOptions twinOptions ⟨0⟩)) fun _ => .done)] := by
  obtain ⟨w, vm, ran, -⟩ := exists_of_mounting first_mounting
  rw [step_of_mounted first_due ran]

/-- A key that is added to an object tells nobody. -/
private theorem second_due : secondTwin.frames =
    [.program (.call (.act (.mountOptions twinOptions ⟨0⟩)) fun _ => .done)] := by
  have silent : (firstTwin.step.world.write ⟨2⟩ "late" .null).2 = none := by decide +kernel
  rw [secondTwin, Machine.step, between_due]
  simp only [request, push, Machine.write]
  split
  · rfl
  · rename_i written
    rw [written] at silent
    cases silent

private theorem second_mounting :
    mounting? secondTwin.world twinOptions ⟨0⟩ = some ⟨⟨1⟩, ⟨5⟩, [⟨1⟩]⟩ := by
  decide +kernel

private theorem twins_begun : Takes (fun m => m.honest = true) { host := () } firstTwin := by
  have ran : Takes (fun m => m.honest = true) (start { host := () } settingUp) firstTwin :=
    takes_run (by decide +kernel)
  exact (Takes.refl.start rfl () settingUp).trans ran

private theorem twins_between : Takes (fun m => m.honest = true) firstTwin.step secondTwin :=
  Takes.refl.step (by decide +kernel)

private theorem contains_of_peek {w : World} (contains : w.Contains data o)
    (holds : w.peek o key = .object x) : w.Contains data x := by
  cases found : w.slot? o key with
  | none => simp [peek_eq, found] at holds
  | some slot =>
    obtain ⟨i, there, -⟩ := Properties.find?_eq_some_iff.mp found
    exact contains.through (List.mem_of_getElem? there) ((peek_of_slot found).symm.trans holds)

private theorem writing_scalars : ∀ r ∈ twinWrites,
    r.WritesScalar secondTwin.step.world (secondTwin.step.world.Contains ⟨2⟩) := by
  have listed : secondTwin.step.world.peek ⟨2⟩ "list" = .object ⟨1⟩ := by decide +kernel
  have held : secondTwin.step.world.peek ⟨1⟩ "1" = .object ⟨0⟩ := by decide +kernel
  have present : (secondTwin.step.world.viewModel? ⟨0⟩).map (·.data) = some ⟨2⟩ := by decide +kernel
  generalize secondTwin.step.world = w at listed held present
  have found : ∀ view, w.viewModel? ⟨0⟩ = some view → view.data = ⟨2⟩ := by
    intro view found
    simpa [found] using present
  have sequence : w.Contains ⟨2⟩ ⟨1⟩ := contains_of_peek .self listed
  intro r among
  simp only [twinWrites, List.mem_cons, List.not_mem_nil, or_false] at among
  rcases among with rfl | rfl | rfl | rfl
  · exact ⟨sequence, rfl⟩
  · exact ⟨fun view here => (found view here).symm ▸ .self, rfl⟩
  · exact ⟨.self, rfl⟩
  · exact ⟨contains_of_peek sequence held, rfl⟩

/-- The twins are mounted on objects of their own, although the page shows both of them; writing
through all of the first one does not concern the second one. -/
theorem twins_share_nothing :
    Takes (fun m => m.honest = true) { host := () } firstTwin ∧
    firstTwin.MountsOptions twinOptions ⟨⟨1⟩, ⟨2⟩, [⟨0⟩]⟩ ∧
    Takes (fun m => m.honest = true) firstTwin.step secondTwin ∧
    secondTwin.MountsOptions twinOptions ⟨⟨1⟩, ⟨5⟩, [⟨1⟩]⟩ ∧
    Plants firstTwin.world twinOptions.data ⟨2⟩ firstTwin.step.world ∧
    Plants secondTwin.world twinOptions.data ⟨5⟩ secondTwin.step.world ∧
    secondTwin.step.world.Apart ⟨2⟩ ⟨5⟩ ∧
    (∃ n, (run n writingTwin).idle = true ∧ (run n writingTwin).failure = none) ∧
    ∀ n, secondTwin.step.world.Untouched ⟨5⟩ (run n writingTwin).world := by
  have first := mountsOptions_of_mounting first_due first_mounting
  have second := mountsOptions_of_mounting second_due second_mounting
  obtain ⟨plants₁, plants₂, apart, shielded, -⟩ :=
    mounts_share_nothing twins_begun first twins_between second
  refine ⟨twins_begun, first, twins_between, second, plants₁, plants₂, apart, ?_⟩
  have world : writingTwin.world = secondTwin.step.world := by simp only [writingTwin]
  have due : writingTwin.frames = [.program (.inTurn twinWrites)] := by simp only [writingTwin]
  refine shielded Unit writingTwin twinWrites world due (by decide +kernel) (fun s alive => ?_)
    writing_scalars
  have reachable : secondTwin.step.Reachable := reachable_step
    (twins_between.reachable (reachable_step (twins_begun.reachable (reachable_initial ()))))
  rw [alive_of_program due, world] at alive
  have known : s.index < secondTwin.step.world.subscribers.size :=
    (reachable_sound reachable).known (alive_iff.mpr (.inl alive))
  have size : secondTwin.step.world.subscribers.size = 2 := by decide +kernel
  have few : ∀ i < 2, SubscriberId.mk i ∈ [⟨0⟩] ++ [⟨1⟩] := by decide
  exact few s.index (size ▸ known)

end Machine
end DataBinding
