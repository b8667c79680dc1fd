import DataBinding.Proofs.Rounds

/-! Sessions: one operation after another on mounted pages, each of which runs to its end.
The bindings that a session has made, with what has changed since, are read off the record
of its operations; after every operation they are all in order. -/
namespace DataBinding
open World

variable {σ : Type}

/-- An operation that has been done, with the worlds before and after it. -/
structure Event where
  before : World
  op : Machine.Operation
  after : World

namespace Event

/-- Whether the operation has stored another value in an existing property. -/
def changes (e : Event) (o : ObjectId) (key : String) : Bool :=
  match e.op.write? e.before with
  | none => false
  | some (o', key', v) => o' == o && key' == key && e.before.changes o key v

/-- The operation has mounted the tree with these nodes. -/
def Mounts (e : Event) (ns : List NodeId) : Prop :=
  ∃ element v, e.op = .mount element v ∧ e.before.Spans [element] ns

/-- The operation was a mount that has bound the node to a property, which existed already
or did not. -/
def Binds (e : Event) (n : NodeId) (role : Role) (data : ObjectId) (key : String) (present : Bool) :
    Prop :=
  ∃ element v, e.op = .mount element v ∧ (e.before.dataObject v).2 = data ∧
    e.before.Bound e.after data (e.before.children element) n role key ∧
    (e.before.slot? data key).isSome = present

end Event

namespace Machine

/-- A mount takes a tree of nodes that were there at first, each in one place and in no tree
that was mounted before. -/
def Operation.Allowed (first : World) (past : List Event) (w : World) : Operation → Prop
  | .mount element _ => ∃ ns, w.Spans [element] ns ∧ ns.Nodup ∧
      (∀ n ∈ ns, ∃ x, first.node? n = some x) ∧ ∀ e ∈ past, ∀ ms, e.Mounts ms → ns.Disjoint ms
  | _ => True

/-- The operations of a session, and the machine that they have led to. -/
inductive Session (first : Machine σ) : List Event → Machine σ → Prop where
  | begin : Session first [] first
  | next (session : Session first past m) (allowed : op.Allowed first.world past m.world)
      (performed : m.Performs op m') : Session first (past ++ [⟨m.world, op, m'.world⟩]) m'

/-- Nothing is in progress, and nobody watches, listens or collects. -/
structure Quiet (m : Machine σ) : Prop where
  reachable : m.Reachable
  idle : m.idle = true
  unwatched : m.world.holds s = false
  unheard : m.world.listeners n = []
  targets : m.world.targets = []

end Machine

/-- A binding after one more operation. -/
def Mark.since (e : Event) (k : Mark) : Mark :=
  { k with changed := k.changed || (k.present && e.changes k.data k.key) }

theorem Mark.since_of_none {e : Event} {k : Mark} (silent : e.op.write? e.before = none) :
    k.since e = k := by
  simp [since, Event.changes, silent]

theorem Mark.since_of_some {e : Event} {k : Mark} {o : ObjectId} {key : String} {v : Value}
    (writes : e.op.write? e.before = some (o, key, v)) :
    k.since e = k.after e.before o key v := by
  have same : (k.present && e.changes k.data k.key) =
      (e.before.changes o key v && k.present && k.data == o && k.key == key) := by
    simp only [Event.changes, writes]
    by_cases here : k.data = o ∧ k.key = key
    · obtain ⟨rfl, rfl⟩ := here
      simp [Bool.and_comm]
    · grind
  simp only [since, after, same]

/-- The last operation is either the one looked for or comes later. -/
theorem split_last (past before later : List Event) (last e : Event) :
    past ++ [last] = before ++ e :: later ↔
      later = [] ∧ e = last ∧ before = past ∨
        ∃ later', later = later' ++ [last] ∧ past = before ++ e :: later' := by
  constructor
  · intro same
    rcases List.eq_nil_or_concat later with rfl | ⟨later', l, rfl⟩
    · obtain ⟨rfl, one⟩ := List.append_inj' same rfl
      exact .inl ⟨rfl, (List.singleton_inj.mp one).symm, rfl⟩
    · have split : past ++ [last] = (before ++ e :: later') ++ [l] := by simpa using same
      obtain ⟨rfl, one⟩ := List.append_inj' split rfl
      exact .inr ⟨later', by simp [List.singleton_inj.mp one], rfl⟩
  · rintro (⟨rfl, rfl, rfl⟩ | ⟨later', rfl, rfl⟩)
    · rfl
    · simp

namespace Machine

/-- What a session has bound, with what has changed since, and where it stands. -/
structure Logged (first : Machine σ) (past : List Event) (m : Machine σ) (marks : List Mark) :
    Prop where
  reachable : m.Reachable
  idle : m.idle = true
  synced : Synced first.world.subscribers.size first.world.nodes.size m.world marks
  made : past = before ++ e :: later → e.Binds n role data key present →
    ∃ k ∈ marks, k.node = n ∧ k.role = role ∧ k.data = data ∧ k.key = key ∧ k.present = present ∧
      k.changed = (present && later.any (·.changes data key))
  origin : k ∈ marks → ∃ e ∈ past, e.Binds k.node k.role k.data k.key k.present
  places : k ∈ marks → first.world.nodes.size ≤ k.node.index ∨
    ∃ e ∈ past, ∃ ns, e.Mounts ns ∧ k.node ∈ ns

namespace Logged

variable {first m : Machine σ} {past : List Event} {marks : List Mark}

private theorem begin (quiet : first.Quiet) : Logged first [] first [] where
  reachable := quiet.reachable
  idle := quiet.idle
  synced := by
    have sound := (reachable_sound quiet.reachable).world
    refine ⟨⟨⟨Nat.le_refl _, ?_, ?_, ?_, ?_, ?_, ?_⟩, Nat.le_refl _, ?_⟩, ?_, quiet.targets, ?_, ?_⟩
    · exact fun member => absurd member List.not_mem_nil
    · exact fun member => absurd member List.not_mem_nil
    · exact fun listed => .inl (sound.entries listed)
    · exact fun member => absurd member List.not_mem_nil
    · exact fun member => absurd member List.not_mem_nil
    · exact fun member => absurd member List.not_mem_nil
    · exact fun member => absurd member List.not_mem_nil
    · exact fun n => .inl ⟨quiet.unheard, fun k member => absurd member List.not_mem_nil⟩
    · exact fun member => absurd member List.not_mem_nil
    · exact fun _ => quiet.unwatched
  made same := by simp at same
  origin member := absurd member List.not_mem_nil
  places member := absurd member List.not_mem_nil

/-- One more operation changes what it changes and binds what it binds. -/
private theorem next {m' : Machine σ} (logged : Logged first past m marks) (e : Event)
    (new : List Mark)
    (reachable : m'.Reachable) (idle : m'.idle = true)
    (synced : Synced first.world.subscribers.size first.world.nodes.size m'.world
      (marks.map (·.since e) ++ new))
    (fresh : ∀ k ∈ new, e.Binds k.node k.role k.data k.key k.present ∧ k.changed = false ∧
      (first.world.nodes.size ≤ k.node.index ∨ ∃ ns, e.Mounts ns ∧ k.node ∈ ns))
    (all : ∀ n role data key present, e.Binds n role data key present → ∃ k ∈ new, k.node = n ∧
      k.role = role ∧ k.data = data ∧ k.key = key ∧ k.present = present) :
    Logged first (past ++ [e]) m' (marks.map (·.since e) ++ new) where
  reachable := reachable
  idle := idle
  synced := synced
  made {before e' later n role data key present} same binds := by
    rcases (split_last ..).mp same with ⟨rfl, rfl, rfl⟩ | ⟨later', rfl, split⟩
    · obtain ⟨k, late, node, kind, owner, named, exists_⟩ := all _ _ _ _ _ binds
      refine ⟨k, List.mem_append_right _ late, node, kind, owner, named, exists_, ?_⟩
      simpa using (fresh k late).2.1
    · obtain ⟨k, old, rfl, rfl, rfl, rfl, rfl, changed⟩ := logged.made split binds
      refine ⟨k.since e, List.mem_append_left _ (List.mem_map_of_mem old), rfl, rfl, rfl, rfl, rfl, ?_⟩
      simp [Mark.since, changed, Bool.and_or_distrib_left]
  origin {k} member := by
    rcases List.mem_append.mp member with old | late
    · obtain ⟨k', before, rfl⟩ := List.mem_map.mp old
      obtain ⟨e', among, binds⟩ := logged.origin before
      exact ⟨e', List.mem_append_left _ among, binds⟩
    · exact ⟨e, by simp, (fresh k late).1⟩
  places {k} member := by
    rcases List.mem_append.mp member with old | late
    · obtain ⟨k', before, rfl⟩ := List.mem_map.mp old
      apply (logged.places before).imp_right
      rintro ⟨e', among, tree⟩
      exact ⟨e', List.mem_append_left _ among, tree⟩
    · apply (fresh k late).2.2.imp_right
      rintro tree
      exact ⟨e, by simp, tree⟩

/-- Nodes that were there at first are there still. -/
private theorem page (logged : Logged first past m marks) (found : first.world.node? n = some x) :
    n.index < first.world.nodes.size ∧ ∃ y, m.world.node? n = some y := by
  have inside : n.index < first.world.nodes.size := Arena.lt_size_of_get? found
  have still : n.index < m.world.nodes.cells.size :=
    Nat.lt_of_lt_of_le inside logged.synced.ordered.pages
  exact ⟨inside, _, Array.getElem?_eq_getElem still⟩

private theorem reachable_of_performs {m' : Machine σ} (logged : Logged first past m marks)
    (performed : m.Performs op m') : m'.Reachable := by
  obtain ⟨⟨n, rfl⟩, -⟩ := performed
  exact reachable_run n (reachable_start logged.reachable logged.idle m.host op.program)

/-- A mount comes to its end and makes its bindings. -/
private theorem mounts (logged : Logged first past m marks)
    (allowed : (Operation.mount element v).Allowed first.world past m.world) :
    ∃ m' marks', m.Performs (.mount element v) m' ∧ m'.failure = none ∧
      Logged first (past ++ [⟨m.world, .mount element v, m'.world⟩]) m' marks' := by
  obtain ⟨ns, spans, nodup, old, apart⟩ := allowed
  have tree := spans
  cases spans with
  | @cons _ below _ none under rest =>
    cases rest
    simp only [List.append_nil] at nodup old apart tree
    obtain ⟨-, nodup⟩ := List.nodup_cons.mp nodup
    have old : ∀ n ∈ below, ∃ x, first.world.node? n = some x :=
      fun n member => old n (List.mem_cons_of_mem _ member)
    have unmarked : ∀ n ∈ below, ∀ k ∈ marks, k.node ≠ n := by
      rintro n member k among rfl
      obtain ⟨x, found⟩ := old _ member
      rcases logged.places among with above | ⟨e, done, ms, mounted, there⟩
      · exact Nat.not_lt_of_le above (logged.page found).1
      · exact apart e done ms mounted (List.mem_cons_of_mem _ member) there
    have unshown : ∀ n ∈ below, Unshown m.world marks n := by
      intro n member k among role changed
      refine ⟨unmarked n member k among, fun shown => ?_⟩
      obtain ⟨x, found⟩ := old n member
      have above := ((logged.synced.ordered.order among).own role changed shown).1
      exact Nat.not_lt_of_le above (logged.page found).1
    have page : ∀ n ∈ below, ∃ x, m.world.node? n = some x := fun n member =>
      (old n member).elim fun _ found => (logged.page found).2
    obtain ⟨w', vm, new, ran, synced, brings⟩ := logged.synced.mounts
      (reachable_sound logged.reachable).world v under nodup page unshown unmarked
    have performed := performs_mount m ran
    refine ⟨_, _, performed, rfl, logged.next _ new (logged.reachable_of_performs performed)
      rfl ?_ ?_ ?_⟩
    · have same : marks.map (·.since ⟨m.world, .mount element v, w'⟩) = marks :=
        (List.map_congr_left fun k _ => Mark.since_of_none rfl).trans (List.map_id _)
      rw [same]
      exact synced
    · intro k late
      obtain ⟨owner, unchanged, present⟩ := brings.fresh late
      have bound := brings.bound.mp ⟨k, late, rfl, rfl, rfl⟩
      refine ⟨⟨element, v, rfl, owner.symm, owner.symm ▸ bound, ?_⟩, unchanged, ?_⟩
      · rw [owner]
        exact present.symm
      · rcases brings.places late with there | absent
        · exact .inr ⟨_, ⟨element, v, rfl, tree⟩, List.mem_cons_of_mem _ there⟩
        · have outside : m.world.nodes.size ≤ k.node.index := Array.getElem?_eq_none_iff.mp absent
          exact .inl (Nat.le_trans logged.synced.ordered.pages outside)
    · rintro n role data key present ⟨element', v', op, rfl, bound, exists_⟩
      obtain ⟨rfl, rfl⟩ := Operation.mount.inj op
      obtain ⟨k, late, node, kind, rfl⟩ := brings.bound.mpr bound
      obtain ⟨owner, -, present⟩ := brings.fresh late
      exact ⟨k, late, node, kind, owner, rfl, present.trans exists_⟩

/-- Operations other than mounts make no bindings. -/
private theorem kept {m' : Machine σ} (logged : Logged first past m marks)
    (performed : m.Performs op m') (other : ∀ element v, op ≠ .mount element v)
    (synced : Synced first.world.subscribers.size first.world.nodes.size m'.world
      (marks.map (·.since ⟨m.world, op, m'.world⟩))) :
    ∃ marks', Logged first (past ++ [⟨m.world, op, m'.world⟩]) m' marks' := by
  refine ⟨_, logged.next _ [] (logged.reachable_of_performs performed) performed.2 ?_ ?_ ?_⟩
  · rw [List.append_nil]
    exact synced
  · exact fun k late => absurd late List.not_mem_nil
  · rintro n role data key present ⟨element, v, same, -⟩
    exact absurd same (other element v)

private theorem silent {m' : Machine σ} (logged : Logged first past m marks)
    (performed : m.Performs op m') (other : ∀ element v, op ≠ .mount element v)
    (nothing : op.write? m.world = none)
    (synced : Synced first.world.subscribers.size first.world.nodes.size m'.world marks) :
    ∃ marks', Logged first (past ++ [⟨m.world, op, m'.world⟩]) m' marks' := by
  apply logged.kept performed other
  have same : marks.map (·.since ⟨m.world, op, m'.world⟩) = marks :=
    (List.map_congr_left fun _ _ => Mark.since_of_none nothing).trans (List.map_id _)
  rw [same]
  exact synced

private theorem stores {m' : Machine σ} {o : ObjectId} {key : String} {v : Value}
    (logged : Logged first past m marks)
    (performed : m.Performs op m') (other : ∀ element v, op ≠ .mount element v)
    (writes : op.write? m.world = some (o, key, v))
    (synced : Synced first.world.subscribers.size first.world.nodes.size m'.world
      (marks.map (·.after m.world o key v))) :
    ∃ marks', Logged first (past ++ [⟨m.world, op, m'.world⟩]) m' marks' := by
  apply logged.kept performed other
  have same : marks.map (·.since ⟨m.world, op, m'.world⟩) = marks.map (·.after m.world o key v) :=
    List.map_congr_left fun _ _ => Mark.since_of_some writes
  rw [same]
  exact synced

/-- The operation comes to its end without being broken off. What it stores, if anything, is
written into bindings of that property alone. -/
def Advances (first : Machine σ) (past : List Event) (m : Machine σ) (marks : List Mark)
    (op : Operation) : Prop :=
  ∃ m' marks', m.Performs op m' ∧ m'.failure = none ∧
    Logged first (past ++ [⟨m.world, op, m'.world⟩]) m' marks' ∧
    ∀ o key v, op.write? m.world = some (o, key, v) →
      Spares (Written marks o key) (op.typed m.world) m'.world

private theorem creates (logged : Logged first past m marks) (entries : List (String × Value)) :
    Advances first past m marks (.create entries) := by
  have performed := performs_create m entries
  have grows := (Move.object m.world entries).grows
  have synced := logged.synced
  obtain ⟨marks', logged'⟩ := logged.silent performed (by simp) rfl
    ⟨synced.ordered.of_grows grows rfl rfl fun _ => rfl, synced.listening, synced.targets, synced.held,
      synced.gone⟩
  exact ⟨_, marks', performed, rfl, logged', fun _ _ _ writes => nomatch writes⟩

private theorem assigns (logged : Logged first past m marks) (vm : ViewModelId) (key : String)
    (v : Value) : Advances first past m marks (.assign vm key v) := by
  have performed := performs_assign m logged.synced vm key v
  cases found : m.world.viewModel? vm with
  | none =>
    have nothing : (Operation.assign vm key v).write? m.world = none := by
      simp [Operation.write?, found]
    rw [found] at performed
    obtain ⟨marks', logged'⟩ := logged.silent performed (by simp) nothing logged.synced
    refine ⟨_, marks', performed, rfl, logged', fun o' key' v' writes => ?_⟩
    rw [nothing] at writes
    cases writes
  | some view =>
    have writes : (Operation.assign vm key v).write? m.world = some (view.data, key, v) := by
      simp [Operation.write?, found]
    rw [found] at performed
    obtain ⟨synced, spares, -⟩ := logged.synced.stored (reachable_sound logged.reachable).world
      view.data key v
    obtain ⟨marks', logged'⟩ := logged.stores performed (by simp) writes synced
    refine ⟨_, marks', performed, rfl, logged', fun o' key' v' same => ?_⟩
    obtain ⟨rfl, rfl, rfl⟩ : view.data = o' ∧ key = key' ∧ v = v' := by
      simpa using writes.symm.trans same
    exact spares

private theorem inputs (logged : Logged first past m marks) (n : NodeId) (text : String) :
    Advances first past m marks (.input n text) := by
  have sound := (reachable_sound logged.reachable).world
  rcases logged.synced.typed sound n text with
    ⟨silent, synced⟩ | ⟨k, member, control, rfl, heard, synced, spares, -⟩
  · have nothing : (Operation.input n text).write? m.world = none := by
      simp [Operation.write?, silent]
    have performed := performs_silent_input m silent text
    obtain ⟨marks', logged'⟩ := logged.silent performed (by simp) nothing synced
    refine ⟨_, marks', performed, rfl, logged', fun o key v writes => ?_⟩
    rw [nothing] at writes
    cases writes
  · have writes : (Operation.input k.node text).write? m.world = some (k.data, k.key, .string text) := by
      simp [Operation.write?, heard]
    have performed := performs_input m logged.synced member control heard text
    obtain ⟨marks', logged'⟩ := logged.stores performed (by simp) writes synced
    refine ⟨_, marks', performed, rfl, logged', fun o key v same => ?_⟩
    obtain ⟨rfl, rfl, rfl⟩ : k.data = o ∧ k.key = key ∧ .string text = v := by
      simpa using writes.symm.trans same
    exact spares

/-- Whatever is allowed runs to its end. -/
theorem advances (logged : Logged first past m marks) (allowed : op.Allowed first.world past m.world) :
    Advances first past m marks op := by
  cases op with
  | create entries => exact logged.creates entries
  | mount element v =>
    obtain ⟨m', marks', performed, unbroken, logged'⟩ := logged.mounts allowed
    exact ⟨m', marks', performed, unbroken, logged', fun _ _ _ writes => nomatch writes⟩
  | assign vm key v => exact logged.assigns vm key v
  | input n text => exact logged.inputs n text

end Logged

/-- Whatever a session has come to, its bindings are in order. -/
theorem Session.logged {first m : Machine σ} (quiet : first.Quiet) (session : Session first past m) :
    ∃ marks, Logged first past m marks := by
  induction session with
  | begin => exact ⟨[], .begin quiet⟩
  | next session allowed performed ih =>
    obtain ⟨marks, logged⟩ := ih
    obtain ⟨b, marks', performed', -, logged', -⟩ := logged.advances allowed
    obtain rfl := performed.unique performed'
    exact ⟨marks', logged'⟩

end Machine
end DataBinding
