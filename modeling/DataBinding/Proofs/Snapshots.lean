import DataBinding.Proofs.Coherence
import DataBinding.Proofs.Queues
import DataBinding.Proofs.Silence

/-! Notification by snapshot. A notification begins by taking those entries off the list whose
subscribers are gone, and then tells the others in order. What the callbacks do to the list meanwhile
is of no concern to it: entries that they add wait for the next notification, entries whose
subscribers they give up are told all the same, and a notification of the same list that begins
inside another takes a snapshot of its own. An entry goes only when its subscriber has gone. -/
namespace DataBinding

/-- A call that tells the subscribers in a list of a change, as it is made. -/
structure NotifyCall (σ : Type) where
  /-- The machine that goes on when the call has returned. -/
  caller : Machine σ
  list : DepId

namespace Machine
open World

variable {σ : Type}

/-- The notification that begins with the next step: a program asks for it, or another value is
stored in a tracked property. -/
def notifying? (m : Machine σ) : Option (NotifyCall σ) :=
  match m.frames with
  | .program (.call (.notify d) next) :: below =>
    some ⟨{ m with frames := .program (next .done) :: below }, d⟩
  | _ => m.writing?.bind fun call =>
    match m.world.write call.root call.key call.value with
    | (_, none) => none
    | (world, some d) => some ⟨{ call.caller with world := world }, d⟩

/-- The entries of a list whose subscribers are alive, in order. -/
def liveEntries (m : Machine σ) (d : DepId) : List SubscriberId :=
  (m.world.entries d).filter m.alive

/-- The subscriber that the next step tells for a notification which returns to that many frames. -/
def tells? (depth : Nat) (m : Machine σ) : Option SubscriberId :=
  match m.frames with
  | .notifying _ (s :: _) :: below => if below.length = depth then some s else none
  | _ => none

section Calling

variable {m : Machine σ}

/-- A program asks for the notification, or a write does that stores another value. -/
theorem notifying?_cases (calling : m.notifying? = some call) :
    (∃ next below, m.frames = .program (.call (.notify call.list) next) :: below ∧
      call.caller = { m with frames := .program (next .done) :: below }) ∨
    ∃ writing w, m.writing? = some writing ∧
      m.world.write writing.root writing.key writing.value = (w, some call.list) ∧
      call.caller = { writing.caller with world := w } := by
  unfold notifying? at calling
  split at calling
  · rename_i due
    obtain rfl := Option.some.inj calling
    exact .inl ⟨_, _, due, rfl⟩
  · obtain ⟨writing, found, rest⟩ := Option.bind_eq_some_iff.mp calling
    split at rest
    · cases rest
    · rename_i w d written
      obtain rfl := Option.some.inj rest
      exact .inr ⟨writing, w, found, written, rfl⟩

theorem step_of_notifying (calling : m.notifying? = some call) :
    m.step = call.caller.notify call.list := by
  rcases notifying?_cases calling with ⟨next, below, due, caller⟩ | ⟨writing, w, found, written, caller⟩
  · rw [caller]
    simp only [step, due]
    rfl
  · rw [step_of_writing found, Machine.write, (caller_of_writing found).1, written, caller]

/-- When a notification begins, nobody is gone and no list has changed since the step before. -/
theorem caller_of_notifying (calling : m.notifying? = some call) :
    (∀ d, call.caller.world.entries d = m.world.entries d) ∧
      (∀ s, call.caller.alive s = m.alive s) ∧ call.caller.frames ≠ [] := by
  rcases notifying?_cases calling with ⟨next, below, due, caller⟩ | ⟨writing, w, found, written, caller⟩
  · rw [caller]
    exact ⟨fun _ => rfl, fun s => by simp [alive, due, Frame.keeps], List.cons_ne_nil _ _⟩
  · obtain ⟨world, -, busy, -⟩ := caller_of_writing found
    have custody := custody_write m.world writing.root writing.key writing.value
    have entries := (write_same m.world writing.root writing.key writing.value).2.2
    rw [written] at custody entries
    rw [← world] at custody
    have stored : ∀ s, Machine.alive { writing.caller with world := w } s = writing.caller.alive s :=
      fun s => alive_of_custody custody rfl
    rw [caller]
    exact ⟨entries, fun s => (stored s).trans (alive_of_writing found s), busy⟩

/-- The step that makes the call tells nobody. -/
private theorem tells?_of_notifying (calling : m.notifying? = some call) (depth : Nat) :
    tells? depth m = none := by
  unfold tells?
  split
  · rename_i due
    simp [notifying?, writing?, due] at calling
  · rfl

end Calling

/-- A notification works through the subscribers that it has not told yet. -/
private theorem works_notifying (live : List SubscriberId) (base : List (Frame σ)) :
    WorksThrough (Frame.notifying live) base (tells? base.length) where
  ends frames := by simp [step, frames]
  goes {s rest m} frames := by
    obtain ⟨begun, same, -⟩ := frames_update { m with frames := .notifying live rest :: base } s
    exact ⟨begun, by rw [← same]; simp only [step, frames]; rfl⟩
  due {rest m} frames := by cases rest <;> simp [tells?, frames]
  waits {first above rest m} frames := by
    unfold tells?
    split
    · rename_i due
      rw [if_neg (length_ne_of_above due frames)]
    · rfl

section Lists

/-- Of the entries that were filtered out first none comes back. -/
private theorem filter_filter_of_imp {p q : SubscriberId → Bool} {entries : List SubscriberId}
    (among : ∀ s ∈ entries, q s = true → p s = true) :
    (entries.filter p).filter q = entries.filter q := by
  rw [List.filter_filter]
  refine List.filter_congr fun s member => ?_
  cases chosen : q s with
  | false => rfl
  | true => simp [among s member chosen]

/-- A notification takes off only those who are gone. -/
private theorem entries_of_notify (m : Machine σ) (d d' : DepId) :
    (m.notify d').liveEntries d = (m.world.entries d).filter (m.notify d').alive := by
  rw [liveEntries, entries_notify]
  split
  · exact filter_filter_of_imp fun s _ => alive_notify
  · rfl

/-- A step takes nobody off a list who is alive after it, and adds entries at the end only. -/
private theorem Turn.entries {m m' : Machine σ} (turn : Turn m m') (d : DepId) :
    (m.world.entries d).filter m'.alive <+: m'.liveEntries d := by
  cases turn with
  | still => exact List.prefix_refl _
  | calm _ _ _ moves => exact (moves.grows.entries d).filter _
  | @tell top added below s =>
    have deps := (update_same { m with frames := added ++ below } s).2.1
    exact ⟨[], by rw [List.append_nil, liveEntries, entries_of_deps deps d]⟩
  | notify => exact ⟨[], by rw [List.append_nil, entries_of_notify]⟩
  | @store _ _ _ o key _ _ value =>
    have same : ((m.world.modifyObject o (·.replace key value)).observe value).entries d =
        m.world.entries d := entries_observe _ _ d
    exact ⟨[], by rw [List.append_nil, entries_of_notify, same]⟩
  | broken moves => exact (moves.grows.entries d).filter _

/-- Nobody is alive after a step who was not before, unless new. -/
private theorem alive_before {m : Machine σ} (sound : m.Sound) (known : m.world.Known s)
    (alive : m.step.alive s = true) : m.alive s = true := by
  by_contra gone
  rw [gone_step sound known (by simpa using gone)] at alive
  cases alive

private theorem Leads.known {a b : Machine σ} (led : Leads P a b) (sound : a.Sound)
    (known : a.world.Known s) : b.world.Known s := by
  induction led with
  | refl => exact known
  | step led _ ih => exact (step_turn fun _ => (led.sound sound).known).known ih
  | start _ _ _ _ _ ih => exact ih

/-- Entries that are kept on the way to `b`, and from there to `c`, are kept on the way to `c`. -/
private theorem kept_trans {a b c : Machine σ}
    (first : (a.world.entries d).filter b.alive <+: b.liveEntries d)
    (second : (b.world.entries d).filter c.alive <+: c.liveEntries d)
    (early : ∀ s ∈ a.world.entries d, c.alive s = true → b.alive s = true)
    (late : ∀ s ∈ b.world.entries d, c.alive s = true → b.alive s = true) :
    (a.world.entries d).filter c.alive <+: c.liveEntries d := by
  have both := first.filter c.alive
  rw [liveEntries, filter_filter_of_imp early, filter_filter_of_imp late] at both
  exact both.trans second

/-- Whatever happens, an entry stays in its list as long as its subscriber is alive: the list keeps
all such entries in their order, and new ones are added at its end. -/
theorem Leads.entries {a b : Machine σ} (led : Leads P a b) (sound : a.Sound) (d : DepId) :
    (a.world.entries d).filter b.alive <+: b.liveEntries d := by
  induction led with
  | refl => exact List.prefix_refl _
  | @step b led _ ih =>
    have now := led.sound sound
    refine kept_trans ih ((step_turn fun _ => now.known).entries d) (fun s member => ?_) fun s member => ?_
    · exact alive_before now (led.known sound (sound.world.entries member))
    · exact alive_before now (now.world.entries member)
  | start led _ host p _ ih =>
    exact kept_trans ih (List.prefix_refl _) (fun _ _ => alive_start host p)
      fun _ _ => alive_start host p

end Lists

/-- What a notification does that begins with the next step. -/
structure Notifies (m : Machine σ) (call : NotifyCall σ) : Prop where
  /-- First it takes off its list the entries whose subscribers are gone, and no other entry. -/
  prunes (d : DepId) : m.step.world.entries d =
    if call.list = d then m.liveEntries d else m.world.entries d
  /-- The others are to be told. -/
  begins : m.step.frames =
    .notifying (m.liveEntries call.list) (m.liveEntries call.list) :: call.caller.frames
  /-- As long as it lasts, those who have been told are the first of them, and the rest are due. -/
  course : 0 < n → m.Ongoing call.caller.frames n → ∃ above rest,
    (run n m).frames = above ++ .notifying (m.liveEntries call.list) rest :: call.caller.frames ∧
      handled (tells? call.caller.frames.length) m n ++ rest = m.liveEntries call.list
  /-- Whenever no callback is in progress, the next of them is told. -/
  tells : (run n m).frames =
      .notifying (m.liveEntries call.list) (s :: rest) :: call.caller.frames →
    run (n + 1) m = update { run n m with
      frames := .notifying (m.liveEntries call.list) rest :: call.caller.frames } s
  /-- If there is none, it returns. -/
  ends : (run n m).frames = .notifying (m.liveEntries call.list) [] :: call.caller.frames →
    run (n + 1) m = { run n m with frames := call.caller.frames }
  /-- When it returns, all of them have been told, once for each entry and in order. -/
  all : m.ReturnsTo call.caller.frames n →
    handled (tells? call.caller.frames.length) m n = m.liveEntries call.list
  /-- From then on, whatever happens during the call or after it, entries stay in their list as long
  as their subscribers are alive, in order and as often as they are there; new ones come after them. -/
  kept : Leads (fun _ => True) m a → Leads (fun _ => True) a b →
    (a.world.entries d).filter b.alive <+: b.liveEntries d
  /-- So every later notification of the list tells them, also one that begins during the call. -/
  later : Leads (fun _ => True) m a → Leads (fun _ => True) a b → b.notifying? = some other →
    ∃ live, b.step.frames = .notifying live live :: other.caller.frames ∧
      (a.world.entries other.list).filter b.alive <+: live

/-- A notification begins with the entries of its list whose subscribers are alive. -/
private theorem frames_of_notifying {m : Machine σ} (calling : m.notifying? = some call) :
    m.step.frames =
      .notifying (m.liveEntries call.list) (m.liveEntries call.list) :: call.caller.frames := by
  obtain ⟨entries, alive, -⟩ := caller_of_notifying calling
  have live : (call.caller.world.entries call.list).filter call.caller.alive =
      m.liveEntries call.list := by rw [liveEntries, entries, funext alive]
  rw [step_of_notifying calling, ← live]
  rfl

/-- A notification tells those whose entries it finds alive when it begins, each once for every entry
and in the order of the entries, whatever callbacks do to the list meanwhile. -/
theorem notification_tells_its_snapshot {m : Machine σ} (reachable : m.Reachable)
    (calling : m.notifying? = some call) : Notifies m call := by
  obtain ⟨entries, alive, called⟩ := caller_of_notifying calling
  have begins := frames_of_notifying calling
  have works := works_notifying (m.liveEntries call.list) call.caller.frames
  have quiet := tells?_of_notifying calling call.caller.frames.length
  have kept : ∀ {a b : Machine σ}, Leads (fun _ => True) m a → Leads (fun _ => True) a b → ∀ d,
      (a.world.entries d).filter b.alive <+: b.liveEntries d :=
    fun before led => led.entries (before.sound (reachable_sound reachable))
  refine ⟨fun d => ?_, begins, works.along reachable quiet begins, fun due => ?_, fun due => ?_,
    works.all reachable quiet begins called, fun before led => kept before led _, ?_⟩
  · rw [step_of_notifying calling, entries_notify, liveEntries, entries, funext alive]
  · rw [run_succ]
    simp only [step, due]
    rfl
  · rw [run_succ]
    simp only [step, due]
  · intro a b other before led calling'
    exact ⟨b.liveEntries other.list, frames_of_notifying calling', kept before led other.list⟩

/-- A list with an entry twice and with one whose subscriber has been released. The first subscriber,
when it is told for the first time, adds another entry for the second one, releases it and has the
list told once more. -/
def crowding : Program Unit :=
  .call (.act .newDep) fun _ =>
  .call (.subscribe fun _ => .look fun _ w =>
    if (w.entries ⟨0⟩).length = 3 then
      .call (.register ⟨0⟩ ⟨1⟩) fun _ => .call (.act (.release ⟨1⟩)) fun _ =>
      .call (.notify ⟨0⟩) fun _ => .done
    else .done) fun _ =>
  .call (.subscribe fun _ => .done) fun _ =>
  .call (.subscribe fun _ => .done) fun _ =>
  .call (.register ⟨0⟩ ⟨0⟩) fun _ => .call (.register ⟨0⟩ ⟨1⟩) fun _ =>
  .call (.register ⟨0⟩ ⟨0⟩) fun _ => .call (.register ⟨0⟩ ⟨2⟩) fun _ =>
  .call (.act (.release ⟨2⟩)) fun _ =>
  .call (.notify ⟨0⟩) fun _ => .done

/-- The machine about to tell the list. -/
def crowdedMachine : Machine Unit := run 9 (start { host := () } crowding)

def crowdedCall : NotifyCall Unit := ⟨{ crowdedMachine with frames := [.program .done] }, ⟨0⟩⟩

/-- The outer notification tells the three that it began with, though the entry of one of them is
given up meanwhile and the inner one tells four; the entries that are left are those of the first
subscriber. -/
theorem crowded_notification_tells_its_snapshot :
    crowdedMachine.Reachable ∧ crowdedMachine.notifying? = some crowdedCall ∧
    Notifies crowdedMachine crowdedCall ∧ crowdedMachine.world.entries ⟨0⟩ = [⟨0⟩, ⟨1⟩, ⟨0⟩, ⟨2⟩] ∧
    crowdedMachine.liveEntries ⟨0⟩ = [⟨0⟩, ⟨1⟩, ⟨0⟩] ∧ crowdedMachine.ReturnsTo [.program .done] 24 ∧
    handled (tells? 1) crowdedMachine 24 = [⟨0⟩, ⟨1⟩, ⟨0⟩] ∧
    (run 24 crowdedMachine).world.entries ⟨0⟩ = [⟨0⟩, ⟨1⟩, ⟨0⟩, ⟨1⟩] ∧
    (run 24 crowdedMachine).liveEntries ⟨0⟩ = [⟨0⟩, ⟨0⟩] := by
  have reachable : crowdedMachine.Reachable :=
    reachable_run 9 (reachable_start (reachable_initial ()) rfl () crowding)
  have calling : crowdedMachine.notifying? = some crowdedCall := by
    have due : crowdedMachine.frames =
        [.program (.call (.notify ⟨0⟩) fun _ => .done)] := by with_unfolding_all rfl
    simp only [notifying?, due, crowdedCall]
  have notifies := notification_tells_its_snapshot reachable calling
  have returns : crowdedMachine.ReturnsTo [.program .done] 24 :=
    ⟨by decide, by decide +kernel, frames_of_finishing (by decide +kernel)⟩
  have live : crowdedMachine.liveEntries ⟨0⟩ = [⟨0⟩, ⟨1⟩, ⟨0⟩] := by decide +kernel
  exact ⟨reachable, calling, notifies, by decide +kernel, live, returns,
    (notifies.all returns).trans live, by decide +kernel, by decide +kernel⟩

end Machine
end DataBinding
