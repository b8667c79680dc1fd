import DataBinding.Proofs.Sessions

/-! Mounted pages follow their data. Over whole sessions, with pages that share data or do
not, every bound control holds its property, every bound text shows what it was mounted
with or, once the property has changed, the property; and a write changes nothing else. -/
namespace DataBinding
open World

variable {σ : Type}

/-- What a bound node shows of its property, which has changed since the mount or has not. -/
def World.Displays (w : World) (n : NodeId) (role : Role) (data : ObjectId) (key : String)
    (changed : Bool) : Prop :=
  match role with
  | .label initial =>
    w.node? n = some (.text (if changed then (w.peek data key).textContent else initial))
  | .text => changed = true → w.ShowsAlone (w.children n) (w.peek data key).textContent
  | .control => w.controlValue n = (w.peek data key).formValue

/-- The part of a page that a binding of the property writes, and no binding of a property
that did not exist at its mount. -/
def Follows (past : List Event) (o : ObjectId) (key : String) (p : Part) : Prop :=
  (∃ e ∈ past, ∃ n role, e.Binds n role o key true ∧ role.part n = p) ∧
    ∀ e ∈ past, ∀ n role data key', e.Binds n role data key' false → role.part n ≠ p

private theorem displays_of_shows {k : Mark} {w : World} (shows : k.Shows w)
    (present : k.present = true) : w.Displays k.node k.role k.data k.key k.changed := by
  unfold Mark.Shows at shows
  cases role : k.role with
  | label initial =>
    rw [role] at shows
    exact shows
  | text =>
    rw [role] at shows
    obtain ⟨e, found, alone⟩ := shows
    intro changed
    rw [children_of_element found]
    exact alone changed
  | control =>
    rw [role] at shows
    obtain ⟨e, found, holds⟩ := shows
    exact (controlValue_of_element found).trans (holds present)

namespace Machine

/-- Each operation of a session was done by a machine that the session had come to. -/
theorem Session.earlier {first m : Machine σ} (session : Session first past m)
    (split : past = before ++ e :: later) : ∃ a b, Session first before a ∧
      e.before = a.world ∧ e.after = b.world ∧ e.op.Allowed first.world before a.world ∧
        a.Performs e.op b := by
  induction session generalizing later with
  | begin => simp at split
  | next session allowed performed ih =>
    rcases (split_last ..).mp split with ⟨rfl, rfl, rfl⟩ | ⟨later', rfl, same⟩
    · exact ⟨_, _, session, rfl, rfl, allowed, performed⟩
    · exact ih same

/-- The pages that a session has mounted are in step with their data. -/
structure InStep (first : Machine σ) (past : List Event) (m : Machine σ) : Prop where
  /-- Whatever is allowed runs to its end. -/
  completes : op.Allowed first.world past m.world → ∃ m', m.Performs op m' ∧ m'.failure = none
  /-- Every binding of a property that existed at the mount shows it. -/
  displays : past = before ++ e :: later → e.Binds n role data key true →
    m.world.Displays n role data key (later.any (·.changes data key))
  /-- A write has changed nothing but bindings of its property. -/
  writes : past = before ++ e :: later → e.op.write? e.before = some (o, key, v) →
    Spares (Follows before o key) (e.op.typed e.before) e.after

/-- Over any session, with pages whose nodes stand in one place each, all that is mounted
stays in step with its data. -/
theorem mounted_pages_follow_data {first m : Machine σ} (quiet : first.Quiet)
    (session : Session first past m) : InStep first past m where
  completes allowed := by
    obtain ⟨marks, logged⟩ := session.logged quiet
    obtain ⟨m', -, performed, unbroken, -⟩ := logged.advances allowed
    exact ⟨m', performed, unbroken⟩
  displays split binds := by
    obtain ⟨marks, logged⟩ := session.logged quiet
    obtain ⟨k, member, rfl, rfl, rfl, rfl, present, changed⟩ := logged.made split binds
    have shows := displays_of_shows (logged.synced.ordered.order member).shows present
    rw [changed, Bool.true_and] at shows
    exact shows
  writes {before e later o key v} split writes := by
    obtain ⟨a, b, session', earlier, after, allowed, performed⟩ := session.earlier split
    obtain ⟨marks, logged⟩ := session'.logged quiet
    obtain ⟨b', -, performed', -, -, spares⟩ := logged.advances allowed
    obtain rfl := performed.unique performed'
    rw [earlier] at writes ⊢
    rw [after]
    apply (spares o key v writes).mono
    rintro p ⟨k, member, rfl, rfl, present, rfl⟩
    constructor
    · obtain ⟨e', among, binds⟩ := logged.origin member
      exact ⟨e', among, k.node, k.role, present ▸ binds, rfl⟩
    · intro e' among n role data key' binds same
      obtain ⟨front, back, split'⟩ := List.append_of_mem among
      obtain ⟨l, other, rfl, rfl, -, -, absent, -⟩ := logged.made split' binds
      rw [logged.synced.ordered.linked.apart other member same, present] at absent
      cases absent

/-- A machine that has only been given data and pages is quiet. -/
theorem quiet_of_bare {m : Machine σ} (reachable : m.Reachable) (idle : m.idle = true)
    (custody : m.world.custody = ({} : World).custody)
    (nobody : m.world.nodes.cells.all (·.listeners.isEmpty) = true) : m.Quiet := by
  refine ⟨reachable, idle, fun {s} => ?_, fun {n} => ?_, targets_of_custody custody⟩
  · rw [holds_of_custody custody]
    simp [holds, Arena.empty]
  · cases found : m.world.node? n with
    | none => simp [listeners, found]
    | some x =>
      have listed : x ∈ m.world.nodes.cells := Array.mem_of_getElem? found
      have none := Array.all_eq_true_iff_forall_mem.mp nobody x listed
      simpa [listeners, found] using none

/-- The machine when it has done an operation. -/
def afterwards (m : Machine σ) (op : Operation) : Machine σ := run 20 (m.start op.program)

theorem performs_afterwards (m : Machine σ) (op : Operation)
    (ends : (m.afterwards op).idle = true) : m.Performs op (m.afterwards op) :=
  ⟨⟨20, rfl⟩, ends⟩

/-- Two pages for the same data: a paragraph with a text, and a form with a control. -/
def sharing : Program Unit :=
  .call (.act (.newObject [("k", .string "A")])) fun _ =>
  .call (.act (.newElement "p")) fun _ =>
  .call (.act (.newText "Hi \x7b\x7b k \x7d\x7d")) fun _ =>
  .call (.act (.appendChild ⟨0⟩ ⟨1⟩)) fun _ =>
  .call (.act (.newElement "form")) fun _ =>
  .call (.act (.newElement "input")) fun _ =>
  .call (.act (.setAttribute ⟨3⟩ "v-model" "k")) fun _ =>
  .call (.act (.appendChild ⟨2⟩ ⟨3⟩)) fun _ => .done

def sharingMachine : Machine Unit := run 9 (start { host := () } sharing)

/-- The paragraph is mounted, then the form as well, and then a text is typed. -/
def paragraphMounted : Machine Unit := sharingMachine.afterwards (.mount ⟨0⟩ (.object ⟨0⟩))

def formMounted : Machine Unit := paragraphMounted.afterwards (.mount ⟨2⟩ (.object ⟨0⟩))

def textTyped : Machine Unit := formMounted.afterwards (.input ⟨3⟩ "B")

def sharingPast : List Event :=
  [⟨sharingMachine.world, .mount ⟨0⟩ (.object ⟨0⟩), paragraphMounted.world⟩,
    ⟨paragraphMounted.world, .mount ⟨2⟩ (.object ⟨0⟩), formMounted.world⟩,
    ⟨formMounted.world, .input ⟨3⟩ "B", textTyped.world⟩]

private theorem sharing_quiet : sharingMachine.Quiet :=
  quiet_of_bare (reachable_run 9 (reachable_start (reachable_initial ()) rfl () sharing))
    (by decide +kernel) (by with_unfolding_all rfl) (by decide +kernel)

private theorem sharing_session : Session sharingMachine sharingPast textTyped := by
  have paragraph : sharingMachine.world.Spans [⟨0⟩] [⟨0⟩, ⟨1⟩] :=
    .only (by decide +kernel) (.leaf (by decide +kernel))
  have form : paragraphMounted.world.Spans [⟨2⟩] [⟨2⟩, ⟨3⟩] :=
    .only (by decide +kernel) (.leaf (by decide +kernel))
  have once : Session sharingMachine (sharingPast.take 1) paragraphMounted := by
    refine Session.begin.next ?_
      (performs_afterwards sharingMachine (.mount ⟨0⟩ (.object ⟨0⟩)) (by decide +kernel))
    exact ⟨_, paragraph, by decide, exists_of_isSome (by decide +kernel), by simp⟩
  have twice : Session sharingMachine (sharingPast.take 2) formMounted := by
    refine once.next ?_
      (performs_afterwards paragraphMounted (.mount ⟨2⟩ (.object ⟨0⟩)) (by decide +kernel))
    refine ⟨_, form, by decide, exists_of_isSome (by decide +kernel), fun e among ms mounts => ?_⟩
    obtain rfl := List.mem_singleton.mp among
    obtain ⟨element, v, op, spans⟩ := mounts
    obtain ⟨rfl, rfl⟩ := Operation.mount.inj op
    obtain rfl := paragraph.unique spans
    exact List.disjoint_left.mpr (by decide)
  exact twice.next trivial (performs_afterwards formMounted (.input ⟨3⟩ "B") (by decide +kernel))

private theorem form_binds : Event.Binds
    ⟨paragraphMounted.world, .mount ⟨2⟩ (.object ⟨0⟩), formMounted.world⟩
    ⟨3⟩ .control ⟨0⟩ "k" true := by
  have found : paragraphMounted.world.node? ⟨3⟩ =
      some (.element { tag := "input", attributes := [⟨"v-model", "k"⟩] }) := by decide +kernel
  have template : paragraphMounted.world.Template ⟨0⟩ ⟨3⟩ .control "k" :=
    .directive found (List.mem_singleton_self _) (d := .model) (by decide)
  have below : ⟨3⟩ ∈ paragraphMounted.world.children ⟨2⟩ := by decide +kernel
  exact ⟨⟨2⟩, .object ⟨0⟩, rfl, rfl, .own (.root below) template, by decide +kernel⟩

/-- What is typed into the control shows on the other page. -/
theorem pages_that_share_data_follow_it :
    ∃ (first m : Machine Unit) (past : List Event), first.Quiet ∧ Session first past m ∧
      InStep first past m ∧ (∃ e ∈ past, e.Binds ⟨3⟩ .control ⟨0⟩ "k" true) ∧
      m.world.controlValue ⟨3⟩ = "B" ∧ m.world.node? ⟨1⟩ = some (.text "B") := by
  refine ⟨sharingMachine, textTyped, sharingPast, sharing_quiet, sharing_session,
    mounted_pages_follow_data sharing_quiet sharing_session, ⟨_, ?_, form_binds⟩, ?_, ?_⟩
  · simp [sharingPast]
  · decide +kernel
  · decide +kernel

/-- A form with a control inside a paragraph whose text is a property. -/
def covering : Program Unit :=
  .call (.act (.newObject [("t", .string "x"), ("k", .string "A")])) fun _ =>
  .call (.act (.newElement "form")) fun _ =>
  .call (.act (.newElement "p")) fun _ =>
  .call (.act (.setAttribute ⟨1⟩ "v-text" "t")) fun _ =>
  .call (.act (.newElement "input")) fun _ =>
  .call (.act (.setAttribute ⟨2⟩ "v-model" "k")) fun _ =>
  .call (.act (.appendChild ⟨1⟩ ⟨2⟩)) fun _ =>
  .call (.act (.appendChild ⟨0⟩ ⟨1⟩)) fun _ => .done

def coveringMachine : Machine Unit := run 9 (start { host := () } covering)

/-- A control in the tree that is mounted does not hold its property if it stands inside an
element with a `v-text`. -/
theorem covered_control_is_passed_over :
    ∃ (first m : Machine Unit) (e : Event) (ns : List NodeId) (x : Element), first.Quiet ∧
      Session first [e] m ∧ e.op = .mount ⟨0⟩ (.object ⟨0⟩) ∧ e.Mounts ns ∧ ⟨2⟩ ∈ ns ∧
      e.before.node? ⟨2⟩ = some (.element x) ∧ ⟨"v-model", "k"⟩ ∈ x.attributes ∧
      (e.before.slot? ⟨0⟩ "k").isSome = true ∧
      m.world.controlValue ⟨2⟩ ≠ (m.world.peek ⟨0⟩ "k").formValue := by
  have quiet : coveringMachine.Quiet :=
    quiet_of_bare (reachable_run 9 (reachable_start (reachable_initial ()) rfl () covering))
      (by decide +kernel) (by with_unfolding_all rfl) (by decide +kernel)
  have tree : coveringMachine.world.Spans [⟨0⟩] [⟨0⟩, ⟨1⟩, ⟨2⟩] :=
    .only (by decide +kernel) (.only (by decide +kernel) (.leaf (by decide +kernel)))
  have allowed : (Operation.mount ⟨0⟩ (.object ⟨0⟩)).Allowed coveringMachine.world []
      coveringMachine.world := ⟨_, tree, by decide, exists_of_isSome (by decide +kernel), by simp⟩
  have session := Session.begin.next allowed
    (performs_afterwards coveringMachine (.mount ⟨0⟩ (.object ⟨0⟩)) (by decide +kernel))
  refine ⟨coveringMachine, _, _, _, { tag := "input", attributes := [⟨"v-model", "k"⟩] }, quiet, session,
    rfl, ⟨_, _, rfl, tree⟩, by simp, ?_, List.mem_singleton_self _, ?_, ?_⟩
  all_goals decide +kernel

end Machine
end DataBinding
