import DataBinding.Proofs.Following
import DataBinding.Proofs.Plans
import DataBinding.Proofs.Values

/-! Elements whose text is a property. A mount gives the element the text of the property, but in a
node that the walk then comes to: if the text looks like a template it is bound as one, and the
element follows another property until its own changes for the first time. -/
namespace DataBinding
namespace World

/-- An element without anything below it has no text. -/
theorem textContent_of_bare {w : World} (found : w.node? n = some (.element e))
    (bare : e.children = []) : w.textContent n = "" := by
  have stands : w.Stands n (.element e.tag e.attributes []) := ⟨e, found, rfl, rfl, bare⟩
  rw [textContent, tree?_eq_some_iff.mpr stands]
  rfl

/-- An element with one text below it has that text. -/
theorem textContent_of_only {w : World} (found : w.node? n = some (.element e))
    (only : e.children = [g]) (text : w.node? g = some (.text content)) :
    w.textContent n = content := by
  have stands : w.Stands n (.element e.tag e.attributes [.text content]) :=
    ⟨e, found, rfl, rfl, g, [], only, text, rfl⟩
  rw [textContent, tree?_eq_some_iff.mpr stands]
  simp [Tree.content, Tree.contents]

theorem textContent_of_showsAlone {w : World} (found : w.node? n = some (.element e))
    (alone : w.ShowsAlone e.children content) : w.textContent n = content := by
  unfold ShowsAlone at alone
  split at alone
  · rename_i empty
    rw [textContent_of_bare found alone, empty]
  · obtain ⟨g, only, text⟩ := alone
    exact textContent_of_only found only text

/-- An element has one text directive at most. -/
private theorem template_text_unique {w : World} (tidy : ∀ {x}, w.node? n = some x → x.Tidy)
    (one : w.Template data n .text key) (two : w.Template data n .text key') : key = key' := by
  cases found : w.node? n with
  | none =>
    generalize Role.text = role at one
    cases one with
    | label present => cases found.symm.trans present
    | directive present => cases found.symm.trans present
  | some x =>
    cases x with
    | text content =>
      obtain ⟨f, -, role, -⟩ := (template_of_text found).mp one
      cases role
    | element e =>
      obtain ⟨a, listed, d, named, role, rfl⟩ := (template_of_element found).mp one
      obtain ⟨a', listed', d', named', role', rfl⟩ := (template_of_element found).mp two
      cases d <;> cases role
      cases d' <;> cases role'
      rw [List.inj_on_of_nodup_map (tidy found) listed listed' (eq_of_ofAttribute named named')]

/-- A mount has made these bindings of the page below the element. -/
structure Furnishes (w : World) (element : NodeId) (v : Value) (ns : List NodeId)
    (bs : List Binding) (w' : World) : Prop where
  plan : Plan (w.prepared v) (w.dataObject v).2 w.nodes.size (w.children element) bs w'.nodes.size
  draws : Draws ((w.prepared v).settled (w.dataObject v).2) (w.prepared v) (w.dataObject v).2 bs w'
  places : b ∈ bs → b.node ∈ ns ∨ w.nodes.size ≤ b.node.index
  objects : w'.objects = (w.prepared v).objects

/-- Mounting a page whose nodes stand in one place each comes to its end and makes what is planned. -/
theorem furnishes_mount {w : World} {ns : List NodeId} (sound : w.Sound) (targets : w.targets = [])
    (v : Value) (spans : w.Spans (w.children element) ns) (nodup : ns.Nodup)
    (page : ∀ n ∈ ns, ∃ x, w.node? n = some x) :
    ∃ w' vm bs, w.mount element v = some (w', vm) ∧ Furnishes w element v ns bs w' := by
  have nodes := nodes_prepared w v
  have free : (w.prepared v).target? = none := by
    rw [target?, targets_of_custody (custody_prepared w v), targets]
    rfl
  have spans' : (w.prepared v).Spans ((w.prepared v).children element) ns := by
    rw [children_of_nodes nodes]
    exact spans.of_nodes nodes
  have page' : ∀ n ∈ ns, ∃ x, (w.prepared v).node? n = some x := by
    intro n member
    rw [node?, nodes]
    exact page n member
  obtain ⟨bs, own, a, bound, plan, installs⟩ := bind_installs (w.dataObject v).2
    ((moves_prepared w v).sound sound) free spans' nodup page'
  have same : (w.dataObject v).1.observe (.object (w.dataObject v).2) = w.prepared v := rfl
  have mounts : w.mount element v = some
      ({ a with viewModels := a.viewModels.push (some ⟨element, (w.dataObject v).2, own⟩) },
        ⟨a.viewModels.size⟩) := by
    simp only [mount, same, bound]
    rfl
  rw [children_of_nodes nodes, nodes] at plan
  refine ⟨_, _, bs, mounts, plan, ?_, fun member => ?_, installs.enrolls.objects⟩
  · exact ⟨⟨installs.draws.spares.kept, installs.draws.spares.added⟩, installs.draws.shows,
      installs.draws.own⟩
  · rw [← nodes]
    exact installs.places member

namespace Furnishes

variable {w w' : World} {ns : List NodeId} {bs : List Binding}
  (furnishes : Furnishes w element v ns bs w')
include furnishes

/-- A mount writes only nodes of its page, and what it adds. -/
theorem spares : Spares (fun p => ∃ n, (n ∈ ns ∨ w.nodes.size ≤ n.index) ∧
    (p = .text n ∨ p = .value n ∨ p = .listeners n)) w w' := by
  refine (Spares.of_nodes (nodes_prepared w v)).trans (furnishes.draws.spares.mono ?_)
  rintro p ⟨b, member, writes⟩
  refine ⟨b.node, furnishes.places member, ?_⟩
  rcases writes with rfl | ⟨-, rfl⟩
  · cases role : b.role <;> simp [Binding.part, role, Role.part]
  · exact .inr (.inr rfl)

/-- What an element with a text directive is given. -/
theorem given (reaches : w.Reaches (w.children element) n)
    (template : w.Template (w.dataObject v).2 n .text key) : ⟨n, .text, key⟩ ∈ bs := by
  refine furnishes.plan.covers (reaches.of_nodes (nodes_prepared w v)) ?_
  refine (template_congr ?_ (peek_prepared w v _)).mpr template
  rw [node?, node?, nodes_prepared]

end Furnishes

/-- Telling changes no value. -/
theorem objects_stored (w : World) (o : ObjectId) (key : String) (v : Value) :
    (w.stored o key v).objects = (w.write o key v).1.objects := by
  have told : ∀ (rest : List SubscriberId) (w : World), (rest.foldl tell w).objects = w.objects := by
    intro rest
    induction rest with
    | nil => exact fun _ => rfl
    | cons s rest ih => exact fun w => (ih (w.tell s)).trans (tell_same w s).1
  unfold stored
  split
  · rename_i written
    rw [written]
  · rename_i written
    rw [written, told]

/-- Nobody is told of a value that is there already. -/
theorem nodes_stored_of_same {w : World} (same : w.changes o key v = false) :
    (w.stored o key v).nodes = w.nodes := by
  unfold stored
  split
  · rename_i written
    obtain ⟨nodes, -⟩ := write_same w o key v
    rwa [written] at nodes
  · rename_i written
    obtain ⟨slot, found, -, news, -⟩ := write_eq_some written
    simp [changes, found, news] at same

/-- A tracked property keeps its value unless that changes. -/
theorem peek_stored_of_same {w : World} (tracked : w.Tracked data key d) (written : ObjectId)
    (name : String) (v : Value)
    (same : ¬(written = data ∧ name = key ∧ w.changes data key v = true)) :
    (w.stored written name v).peek data key = w.peek data key := by
  obtain ⟨slot, found, listed⟩ := tracked
  have existing : data.index < w.objects.size :=
    Arena.lt_size_of_get? (object_of_slot found)
  rw [peek_of_objects (objects_stored w written name v), peek_write existing, if_neg]
  rintro ⟨here, named, accepted⟩
  refine same ⟨here, named, ?_⟩
  simpa [changes, accepts, found, listed] using accepted

end World

namespace Machine
open World

variable {σ : Type} {first m m' : Machine σ} {past : List Event} {marks : List Mark} {op : Operation}

/-- What an operation that mounts nothing comes to. -/
private theorem Logged.comes_to (logged : Logged first past m marks) (performed : m.Performs op m')
    (other : ∀ element v, op ≠ .mount element v) (old : ∀ entries, op ≠ .create entries) :
    m'.world = match op.write? m.world with
      | none => op.typed m.world
      | some (o, key, v) => (op.typed m.world).stored o key v := by
  cases op with
  | create entries => exact absurd rfl (old entries)
  | mount element v => exact absurd rfl (other element v)
  | assign vm key v =>
    rw [performed.unique (performs_assign m logged.synced vm key v)]
    cases found : m.world.viewModel? vm <;> simp [Operation.write?, Operation.typed, found]
  | input n text =>
    have sound := (reachable_sound logged.reachable).world
    rcases logged.synced.typed sound n text with ⟨silent, -⟩ | ⟨k, member, control, rfl, heard, -⟩
    · rw [performed.unique (performs_silent_input m silent text)]
      simp [Operation.write?, Operation.typed, silent]
    · rw [performed.unique (performs_input m logged.synced member control heard text)]
      simp [Operation.write?, Operation.typed, heard]

private theorem spares_typed (op : Operation) (w : World) :
    Spares (fun p => ∃ n, p = .value n) w (op.typed w) := by
  cases op with
  | input n text =>
    refine (spares_setControlValue w n text).mono ?_
    rintro _ rfl
    exact ⟨n, rfl⟩
  | create | mount | assign => exact .refl _ w

/-- An operation of a session that was a mount, with what it has bound. -/
structure Mounted (first : World) (past : List Event) (e : Event) (element : NodeId) (v : Value)
    (ns : List NodeId) (bs : List Binding) : Prop where
  op : e.op = .mount element v
  sound : e.before.Sound
  spans : e.before.Spans (e.before.children element) ns
  mounts : e.Mounts (element :: ns)
  furnishes : Furnishes e.before element v ns bs e.after
  old : n ∈ ns → ∃ x, first.node? n = some x
  apart : e' ∈ past → e'.Mounts ms → ns.Disjoint ms
  pages : first.nodes.size ≤ e.before.nodes.size

private theorem Logged.mounted (logged : Logged first past m marks)
    (allowed : (Operation.mount element v).Allowed first.world past m.world)
    (performed : m.Performs (.mount element v) m') :
    ∃ ns bs, Mounted first.world past ⟨m.world, .mount element v, m'.world⟩ element v ns bs := by
  obtain ⟨ns, spans, nodup, old, apart⟩ := allowed
  have tree := spans
  cases spans with
  | @cons _ below _ none under rest =>
    cases rest
    simp only [List.append_nil] at nodup old apart tree
    have sound := (reachable_sound logged.reachable).world
    have pages := logged.synced.ordered.pages
    have page : ∀ n ∈ below, ∃ x, m.world.node? n = some x := by
      intro n member
      obtain ⟨x, found⟩ := old n (List.mem_cons_of_mem _ member)
      have inside : n.index < first.world.nodes.size := Arena.lt_size_of_get? found
      exact ⟨_, Array.getElem?_eq_getElem (Nat.lt_of_lt_of_le inside pages)⟩
    obtain ⟨w', vm, bs, mounts, furnishes⟩ := furnishes_mount sound logged.synced.targets v under
      (List.nodup_cons.mp nodup).2 page
    obtain rfl := performed.unique (performs_mount m mounts)
    refine ⟨below, bs, rfl, sound, under, ⟨element, v, rfl, tree⟩, furnishes,
      fun member => old _ (List.mem_cons_of_mem _ member), fun {e' ms} among mounted => ?_, pages⟩
    exact (List.disjoint_cons_left.mp (apart e' among ms mounted)).2

/-- An operation writes the text of a node. A mount writes only nodes of its own page and those that
it adds, and any other operation only where a property changes. -/
def WritesText (marks : List Mark) (e : Event) (n : NodeId) : Prop :=
  (∃ k ∈ marks, k.present = true ∧ e.changes k.data k.key = true ∧ k.part = .text n) ∨
    (∃ ns, e.Mounts ns ∧ n ∈ ns) ∨ e.before.nodes.size ≤ n.index

private theorem Logged.leaves (logged : Logged first past m marks)
    (allowed : op.Allowed first.world past m.world) (performed : m.Performs op m') :
    Spares (fun p => ∃ n, p = .value n ∨ p = .listeners n ∨
      p = .text n ∧ WritesText marks ⟨m.world, op, m'.world⟩ n) m.world m'.world := by
  have typed : Spares (fun p => ∃ n, p = .value n ∨ p = .listeners n ∨
      p = .text n ∧ WritesText marks ⟨m.world, op, m'.world⟩ n) m.world (op.typed m.world) := by
    refine (spares_typed op m.world).mono ?_
    rintro p ⟨n, rfl⟩
    exact ⟨n, .inl rfl⟩
  have other : (∀ element v, op ≠ .mount element v) → (∀ entries, op ≠ .create entries) →
      Spares (fun p => ∃ n, p = .value n ∨ p = .listeners n ∨
        p = .text n ∧ WritesText marks ⟨m.world, op, m'.world⟩ n) m.world m'.world := by
    intro mounts creates
    have comes := logged.comes_to performed mounts creates
    cases writes : op.write? m.world with
    | none =>
      simp only [writes] at comes
      rwa [comes]
    | some stores =>
      obtain ⟨o, key, v⟩ := stores
      simp only [writes] at comes
      have values : (op.typed m.world).changes o key v = m.world.changes o key v := by
        cases op <;> rfl
      cases changes : m.world.changes o key v with
      | false =>
        rw [comes]
        exact typed.trans (.of_nodes (nodes_stored_of_same (values.trans changes)))
      | true =>
        obtain ⟨m₁, -, performed', -, -, spares⟩ := logged.advances allowed
        obtain rfl := performed.unique performed'
        refine typed.trans ((spares o key v writes).mono ?_)
        rintro p ⟨k, member, rfl, rfl, present, rfl⟩
        have changed : (⟨m.world, op, m'.world⟩ : Event).changes k.data k.key = true := by
          simp [Event.changes, writes, changes]
        refine ⟨k.node, ?_⟩
        cases role : k.role with
        | control => exact .inl (by simp [Mark.part, role, Role.part])
        | label | text =>
          have part : k.part = .text k.node := by simp [Mark.part, role, Role.part]
          exact .inr (.inr ⟨part, .inl ⟨k, member, present, changed, part⟩⟩)
  cases op with
  | create entries =>
    rw [performed.unique (performs_create m entries)]
    exact .of_nodes rfl
  | mount element v =>
    obtain ⟨ns, bs, mounted⟩ := logged.mounted allowed performed
    refine mounted.furnishes.spares.mono ?_
    rintro p ⟨n, place, rfl | rfl | rfl⟩
    · refine ⟨n, .inr (.inr ⟨rfl, .inr (place.imp (fun among => ?_) id)⟩)⟩
      exact ⟨_, mounted.mounts, List.mem_cons_of_mem _ among⟩
    · exact ⟨n, .inl rfl⟩
    · exact ⟨n, .inr (.inl rfl)⟩
  | assign vm key v => exact other (by simp) (by simp)
  | input n text => exact other (by simp) (by simp)

/-- Where an operation does not write the text, the same nodes stand below. -/
private theorem Logged.spares_children (logged : Logged first past m marks)
    (allowed : op.Allowed first.world past m.world) (performed : m.Performs op m')
    (unwritten : ¬WritesText marks ⟨m.world, op, m'.world⟩ n) (found : m.world.node? n = some x) :
    m'.world.children n = m.world.children n := by
  obtain ⟨x', after, keeps⟩ := (logged.leaves allowed performed).kept found
  cases keeps with
  | text => simp [World.children, found, after, Node.children]
  | element below =>
    rw [children_of_element found, children_of_element after]
    exact below (by simpa using unwritten)

private theorem Logged.spares_text (logged : Logged first past m marks)
    (allowed : op.Allowed first.world past m.world) (performed : m.Performs op m')
    (unwritten : ¬WritesText marks ⟨m.world, op, m'.world⟩ n)
    (found : m.world.node? n = some (.text content)) :
    m'.world.node? n = some (.text content) := by
  obtain ⟨x', after, keeps⟩ := (logged.leaves allowed performed).kept found
  cases keeps with
  | text spared => rw [after, spared (by simpa using unwritten)]

/-- A tracked property keeps its value while the session does not change it. -/
private theorem Logged.keeps (logged : Logged first past m marks)
    (allowed : op.Allowed first.world past m.world) (performed : m.Performs op m')
    (tracked : m.world.Tracked data key d)
    (same : (⟨m.world, op, m'.world⟩ : Event).changes data key = false) :
    m'.world.peek data key = m.world.peek data key := by
  have other : (∀ element v, op ≠ .mount element v) → (∀ entries, op ≠ .create entries) →
      m'.world.peek data key = m.world.peek data key := by
    intro mounts creates
    have comes := logged.comes_to performed mounts creates
    have objects : (op.typed m.world).objects = m.world.objects := by cases op <;> rfl
    cases writes : op.write? m.world with
    | none =>
      simp only [writes] at comes
      rw [comes, peek_of_objects objects]
    | some stores =>
      obtain ⟨o, name, v⟩ := stores
      simp only [writes] at comes
      have tracked' : (op.typed m.world).Tracked data key d := by
        cases op <;> exact tracked
      have values : (op.typed m.world).changes data key v = m.world.changes data key v := by
        cases op <;> rfl
      rw [comes, peek_stored_of_same tracked', peek_of_objects objects]
      rintro ⟨rfl, rfl, changes⟩
      simp [Event.changes, writes, values.symm.trans changes] at same
  cases op with
  | create entries =>
    obtain ⟨slot, found, -⟩ := tracked
    rw [performed.unique (performs_create m entries), peek_of_slot found]
    exact peek_of_slot (slot?_newObject _ found)
  | mount element v =>
    obtain ⟨ns, bs, mounted⟩ := logged.mounted allowed performed
    rw [peek_of_objects mounted.furnishes.objects, peek_prepared]
  | assign vm name v => exact other (by simp) (by simp)
  | input n text => exact other (by simp) (by simp)

/-- Every mount of a session has bound its page. -/
private theorem Session.mounted (quiet : first.Quiet) (session : Session first past m)
    (split : past = before ++ e :: later) (op : e.op = .mount element v) :
    ∃ ns bs, Mounted first.world before e element v ns bs := by
  obtain ⟨a, b, session', earlier, after, allowed, performed⟩ := session.earlier split
  obtain ⟨marks, logged⟩ := session'.logged quiet
  obtain ⟨_, op', _⟩ := e
  obtain rfl : op' = .mount element v := op
  obtain rfl : _ = a.world := earlier
  obtain rfl : _ = b.world := after
  exact logged.mounted allowed performed

namespace Mounted

variable {first : World} {e : Event} {v : Value} {ns : List NodeId} {bs : List Binding}
  (mounted : Mounted first past e element v ns bs)
include mounted

/-- A later mount is of a page that the session has begun with, and of another one. -/
private theorem elsewhere (among : e ∈ events) (allowed : op.Allowed first events w)
    (mounts : Event.Mounts ⟨w, op, w'⟩ ms) :
    (∀ g ∈ ms, ∃ x, first.node? g = some x) ∧ ms.Disjoint (element :: ns) := by
  obtain ⟨element', v', rfl, spans⟩ := mounts
  obtain ⟨ms', spans', -, page, apart⟩ := allowed
  obtain rfl := spans.unique spans'
  exact ⟨page, apart e among _ mounted.mounts⟩

/-- What a mount binds is in its page or in what it has added to that. -/
private theorem place (binds : e.Binds g role data key present) :
    g ∈ ns ∨ e.before.nodes.size ≤ g.index ∧ g.index < e.after.nodes.size := by
  obtain ⟨element', v', op, rfl, bound, -⟩ := binds
  obtain ⟨rfl, rfl⟩ := Operation.mount.inj (mounted.op.symm.trans op)
  cases bound with
  | own reaches => exact .inl (reaches.mem mounted.spans)
  | generated reaches template child =>
    have given := mounted.furnishes.given reaches template
    rw [← nodes_prepared e.before v]
    exact .inr (mounted.furnishes.draws.fresh given rfl child)

/-- What an element with a text directive is given. -/
private theorem given (binds : e.Binds n .text data key present) :
    n ∈ ns ∧ ∃ x, e.after.node? n = some (.element x) ∧
      if (e.before.peek data key).textContent = "" then x.children = []
      else ∃ g, x.children = [g] ∧ e.before.nodes.size ≤ g.index ∧
        e.after.node? g = some (.text (e.before.settled data (e.before.peek data key).textContent)) := by
  obtain ⟨element', v', op, rfl, bound, -⟩ := binds
  obtain ⟨rfl, rfl⟩ := Operation.mount.inj (mounted.op.symm.trans op)
  have same : (e.before.prepared v).settled (e.before.dataObject v).2 =
      e.before.settled (e.before.dataObject v).2 := by
    funext content
    simp only [settled, peek_prepared]
  cases bound with
  | own reaches template =>
    have shows := mounted.furnishes.draws.shows (mounted.furnishes.given reaches template)
    simp only [Binding.Shows, peek_prepared, same, nodes_prepared] at shows
    exact ⟨reaches.mem mounted.spans, shows⟩

/-- The text that an element is given is bound as it says, and not otherwise. -/
private theorem relabels (binds : e.Binds n .text data key present)
    (below : g ∈ e.after.children n) : e.Binds g role o name present' ↔
      ∃ f, Text.Interpolation.find? (e.before.peek data key).textContent = some f ∧
        role = .label (f.substitute (e.before.peek data f.key).display) ∧ o = data ∧ name = f.key ∧
          (e.before.slot? data f.key).isSome = present' := by
  have place := binds
  obtain ⟨element', v', op, rfl, bound, -⟩ := binds
  obtain ⟨rfl, rfl⟩ := Operation.mount.inj (mounted.op.symm.trans op)
  cases bound with
  | own reaches template =>
    have covered := mounted.furnishes.given reaches template
    have fresh := (mounted.furnishes.draws.fresh covered rfl below).1
    rw [nodes_prepared] at fresh
    constructor
    · rintro ⟨element', v', op, rfl, bound, exists_⟩
      obtain ⟨rfl, rfl⟩ := Operation.mount.inj (mounted.op.symm.trans op)
      cases bound with
      | own reaches' =>
        obtain ⟨x, found⟩ := mounted.old (reaches'.mem mounted.spans)
        have inside : g.index < first.nodes.size := Arena.lt_size_of_get? found
        have := mounted.pages
        omega
      | @generated k held f reaches' template' child interpolates =>
        have covered' := mounted.furnishes.given reaches' template'
        obtain rfl : n = k := mounted.furnishes.draws.own covered covered' rfl rfl below child
        obtain rfl := template_text_unique mounted.sound.tidy template template'
        exact ⟨f, interpolates, rfl, rfl, rfl, exists_⟩
    · rintro ⟨f, interpolates, rfl, rfl, rfl, exists_⟩
      exact ⟨_, _, mounted.op, rfl, .generated reaches template below interpolates, exists_⟩

end Mounted

/-- A session takes no node away. -/
private theorem Session.grows (quiet : first.Quiet) (session : Session first past m)
    (split : past = before ++ e :: later) : e.after.nodes.size ≤ m.world.nodes.size ∧
      ∀ e' ∈ later, e.after.nodes.size ≤ e'.before.nodes.size := by
  induction session generalizing later with
  | begin => simp at split
  | next session allowed performed ih =>
    rcases (split_last ..).mp split with ⟨rfl, rfl, rfl⟩ | ⟨later', rfl, same⟩
    · exact ⟨Nat.le_refl _, fun _ member => absurd member List.not_mem_nil⟩
    · obtain ⟨marks, logged⟩ := session.logged quiet
      obtain ⟨grown, between⟩ := ih same
      refine ⟨Nat.le_trans grown (logged.leaves allowed performed).size, fun e' member => ?_⟩
      rcases List.mem_append.mp member with old | last
      · exact between e' old
      · rw [List.mem_singleton.mp last]
        exact grown

/-- Nobody but the mount that has added a node binds it. -/
private theorem Session.bound_once (quiet : first.Quiet) (session : Session first past m)
    (split : past = before ++ e :: later) (new : e.before.nodes.size ≤ g.index)
    (added : g.index < e.after.nodes.size) (pages : first.world.nodes.size ≤ e.before.nodes.size)
    (among : e' ∈ past) (binds : e'.Binds g role data key present) : e' = e := by
  have old : ∀ {ns : List NodeId}, (∀ n ∈ ns, ∃ x, first.world.node? n = some x) → g ∉ ns := by
    intro ns page member
    obtain ⟨x, found⟩ := page g member
    have inside : g.index < first.world.nodes.size := Arena.lt_size_of_get? found
    omega
  obtain ⟨element, v, op, -⟩ := id binds
  obtain ⟨front, back, split'⟩ := List.append_of_mem among
  obtain ⟨ns, bs, mounted⟩ := session.mounted quiet split' op
  have place := (mounted.place binds).resolve_left (old fun _ => mounted.old)
  rw [split, List.mem_append, List.mem_cons] at among
  rcases among with earlier | rfl | later
  · obtain ⟨a, -, session', same, -⟩ := session.earlier split
    obtain ⟨front', back', split''⟩ := List.append_of_mem earlier
    have grown := (session'.grows quiet split'').1
    rw [← same] at grown
    omega
  · rfl
  · have grown := (session.grows quiet split).2 e' later
    omega

/-- What stands below the element is still what the mount has put there. -/
structure Lasts (e : Event) (n : NodeId) (data : ObjectId) (key : String) (w : World) : Prop where
  value : w.peek data key = e.before.peek data key
  children : w.children n = e.after.children n
  text : g ∈ e.after.children n → (∀ role o name, ¬e.Binds g role o name true) →
    w.node? g = e.after.node? g

/-- No operation writes the text of an element that a mount has bound, unless the property changes. -/
private theorem Logged.spares_element (logged : Logged first past m marks)
    (mounted : Mounted first.world before e element v ns bs) (among : e ∈ past)
    (binds : e.Binds k.node .text k.data k.key true) (member : k ∈ marks) (role : k.role = .text)
    (allowed : op.Allowed first.world past m.world)
    (same : (⟨m.world, op, m'.world⟩ : Event).changes k.data k.key = false) :
    ¬WritesText marks ⟨m.world, op, m'.world⟩ k.node := by
  rintro (⟨l, other, -, changes, part⟩ | ⟨ms, tree, inside⟩ | new)
  · have mine : k.part = .text k.node := by simp [Mark.part, role, Role.part]
    obtain rfl := logged.synced.ordered.linked.apart other member (part.trans mine.symm)
    rw [same] at changes
    cases changes
  · have page := List.mem_cons_of_mem element (mounted.given binds).1
    exact (mounted.elsewhere among allowed tree).2 inside page
  · obtain ⟨x, found, -⟩ := logged.synced.ordered.linked.fits member
    exact Nat.not_lt_of_le new (Arena.lt_size_of_get? found)

/-- No operation writes a text node that a mount has added, unless it has been bound. -/
private theorem Session.spares_added (quiet : first.Quiet) (session : Session first past m)
    (logged : Logged first past m marks) (mounted : Mounted first.world before e element v ns bs)
    (split : past = before ++ e :: later) (new : e.before.nodes.size ≤ g.index)
    (added : g.index < e.after.nodes.size) (unbound : ∀ role o name, ¬e.Binds g role o name true)
    (allowed : op.Allowed first.world past m.world) :
    ¬WritesText marks ⟨m.world, op, m'.world⟩ g := by
  have pages := mounted.pages
  have among : e ∈ past := by simp [split]
  rintro (⟨l, other, exists_, -, part⟩ | ⟨ms, tree, inside⟩ | late)
  · obtain ⟨e', earlier, binds⟩ := logged.origin other
    rw [Mark.node_of_part (.inl part), exists_] at binds
    obtain rfl := session.bound_once quiet split new added pages earlier binds
    exact unbound _ _ _ binds
  · obtain ⟨y, found⟩ := (mounted.elsewhere among allowed tree).1 g inside
    have old : g.index < first.world.nodes.size := Arena.lt_size_of_get? found
    omega
  · have late : m.world.nodes.size ≤ g.index := late
    have grown := (session.grows quiet split).1
    omega

/-- So it is while the property does not change. -/
private theorem Session.lasts (quiet : first.Quiet) (session : Session first past m)
    (split : past = before ++ e :: later) (binds : e.Binds n .text data key true)
    (unchanged : later.any (·.changes data key) = false) : Lasts e n data key m.world := by
  obtain ⟨element, v, op, owner, -⟩ := id binds
  induction session generalizing later with
  | begin => simp at split
  | @next past m operation m' session allowed performed ih =>
    have mounts := (session.next allowed performed).mounted quiet split op
    obtain ⟨ns, bs, mounted⟩ := mounts
    rcases (split_last ..).mp split with ⟨rfl, rfl, rfl⟩ | ⟨later', rfl, same⟩
    · refine ⟨?_, rfl, fun _ _ => rfl⟩
      rw [peek_of_objects mounted.furnishes.objects, peek_prepared]
    · simp only [List.any_append, List.any_cons, List.any_nil, Bool.or_false,
        Bool.or_eq_false_iff] at unchanged
      have lasts := ih same unchanged.1
      obtain ⟨marks, logged⟩ := session.logged quiet
      obtain ⟨k, member, rfl, role, rfl, rfl, present, -⟩ := logged.made same binds
      obtain ⟨d, tracked, -⟩ := logged.synced.ordered.linked.listed member present
      obtain ⟨x, found, -⟩ := logged.synced.ordered.linked.fits member
      refine ⟨(logged.keeps allowed performed tracked unchanged.2).trans lasts.value, ?_, ?_⟩
      · have unwritten := logged.spares_element mounted (by simp [same]) binds member role allowed
          unchanged.2
        exact (logged.spares_children allowed performed unwritten found).trans lasts.children
      · intro g below unbound
        obtain ⟨-, y, after, given⟩ := mounted.given binds
        have held := below
        rw [children_of_element after] at held
        split at given
        · rw [given] at held
          cases held
        · obtain ⟨g', only, new, text⟩ := given
          obtain rfl : g = g' := by simpa [only] using held
          have before := lasts.text below unbound
          have unwritten : ¬WritesText marks ⟨m.world, operation, m'.world⟩ g :=
            session.spares_added quiet logged mounted same new (Arena.lt_size_of_get? text) unbound allowed
          rw [text] at before ⊢
          exact logged.spares_text allowed performed unwritten before

/-- The text of an element with a text directive, over any session: that of the property once this
has changed for the first time since the mount. Until then it is what the mount has made of the
property: the same text, unless it has an interpolation. Then its property is filled in, and once
that has changed it is shown instead. -/
theorem text_elements_follow_property_or_template {first m : Machine σ} (quiet : first.Quiet)
    (session : Session first past m) (split : past = before ++ e :: later)
    (binds : e.Binds n .text data key true) :
    m.world.textContent n =
      if later.any (·.changes data key) then (m.world.peek data key).textContent
      else match Text.Interpolation.find? (m.world.peek data key).textContent with
        | none => (m.world.peek data key).textContent
        | some f =>
          if (e.before.slot? data f.key).isSome && later.any (·.changes data f.key) then
            (m.world.peek data f.key).textContent
          else f.substitute (e.before.peek data f.key).display := by
  have inStep := mounted_pages_follow_data quiet session
  obtain ⟨marks, logged⟩ := session.logged quiet
  obtain ⟨k, member, rfl, role, -⟩ := logged.made split binds
  obtain ⟨x, found, fits⟩ := logged.synced.ordered.linked.fits member
  rw [role] at fits
  cases x with
  | text content => simp [Role.Fits] at fits
  | element x =>
    cases changed : later.any (·.changes data key) with
    | true =>
      have displays := inStep.displays split binds
      rw [changed] at displays
      have alone := displays rfl
      rw [children_of_element found] at alone
      exact textContent_of_showsAlone found alone
    | false =>
      obtain ⟨element, v, op, -⟩ := id binds
      obtain ⟨ns, bs, mounted⟩ := session.mounted quiet split op
      obtain ⟨-, y, after, given⟩ := mounted.given binds
      have lasts := session.lasts quiet split binds changed
      have below := lasts.children
      rw [children_of_element found, children_of_element after] at below
      rw [lasts.value, if_neg (by simp)]
      split at given
      · rename_i empty
        rw [textContent_of_bare found (below.trans given), empty]
        rfl
      · obtain ⟨g, only, -, text⟩ := given
        have child : g ∈ e.after.children k.node := by simp [children_of_element after, only]
        cases interpolates : Text.Interpolation.find? (e.before.peek data key).textContent with
        | none =>
          have unbound : ∀ role o name, ¬e.Binds g role o name true := by
            intro role o name other
            obtain ⟨f, found', -⟩ := (mounted.relabels binds child).mp other
            cases interpolates.symm.trans found'
          rw [settled, interpolates] at text
          exact textContent_of_only found (below.trans only)
            ((lasts.text child unbound).trans text)
        | some f =>
          have label := (mounted.relabels binds child).mpr
            ⟨f, interpolates, rfl, rfl, rfl, rfl⟩
          cases present : (e.before.slot? data f.key).isSome with
          | true =>
            rw [present] at label
            have displays : m.world.node? g = some (.text _) := inStep.displays split label
            rw [textContent_of_only found (below.trans only) displays]
            simp only [present, Bool.true_and]
          | false =>
            have unbound : ∀ role o name, ¬e.Binds g role o name true := by
              intro role o name other
              obtain ⟨f', found', -, -, -, exists_⟩ := (mounted.relabels binds child).mp other
              obtain rfl := Option.some.inj (interpolates.symm.trans found')
              rw [present] at exists_
              cases exists_
            rw [settled, interpolates] at text
            rw [textContent_of_only found (below.trans only)
              ((lasts.text child unbound).trans text)]
            simp only [present, Bool.false_and, Bool.false_eq_true, if_false]

/-- A paragraph whose text is a property that looks like a template. -/
def quoting : Program Unit :=
  .call (.act (.newObject [("a", .string "\x7b\x7bb\x7d\x7d"), ("b", .string "x")])) fun _ =>
  .call (.act (.newElement "div")) fun _ =>
  .call (.act (.newElement "p")) fun _ =>
  .call (.act (.setAttribute ⟨1⟩ "v-text" "a")) fun _ =>
  .call (.act (.appendChild ⟨0⟩ ⟨1⟩)) fun _ => .done

def quotingMachine : Machine Unit := run 6 (start { host := () } quoting)

def quotingMounted : Machine Unit := quotingMachine.afterwards (.mount ⟨0⟩ (.object ⟨0⟩))

def otherAssigned : Machine Unit := quotingMounted.afterwards (.assign ⟨0⟩ "b" (.string "y"))

def quotingMount : Event :=
  ⟨quotingMachine.world, .mount ⟨0⟩ (.object ⟨0⟩), quotingMounted.world⟩

def otherAssignment : Event :=
  ⟨quotingMounted.world, .assign ⟨0⟩ "b" (.string "y"), otherAssigned.world⟩

def quotingPast : List Event := [quotingMount, otherAssignment]

private theorem quoting_quiet : quotingMachine.Quiet :=
  quiet_of_bare (reachable_run 6 (reachable_start (reachable_initial ()) rfl () quoting))
    (by decide +kernel) (by with_unfolding_all rfl) (by decide +kernel)

private theorem quoting_mounted : Session quotingMachine [quotingMount] quotingMounted := by
  have tree : quotingMachine.world.Spans [⟨0⟩] [⟨0⟩, ⟨1⟩] :=
    .only (by decide +kernel) (.leaf (by decide +kernel))
  refine Session.begin.next ?_
    (performs_afterwards quotingMachine (.mount ⟨0⟩ (.object ⟨0⟩)) (by decide +kernel))
  exact ⟨_, tree, by decide, exists_of_isSome (by decide +kernel), by simp⟩

private theorem quoting_session : Session quotingMachine quotingPast otherAssigned :=
  quoting_mounted.next trivial
    (performs_afterwards quotingMounted (.assign ⟨0⟩ "b" (.string "y")) (by decide +kernel))

private theorem quoting_binds : quotingMount.Binds ⟨1⟩ .text ⟨0⟩ "a" true := by
  have found : quotingMachine.world.node? ⟨1⟩ =
      some (.element { tag := "p", attributes := [⟨"v-text", "a"⟩] }) := by decide +kernel
  have template : quotingMachine.world.Template ⟨0⟩ ⟨1⟩ .text "a" :=
    .directive found (List.mem_singleton_self _) (show _ = some .text by decide)
  have below : ⟨1⟩ ∈ quotingMachine.world.children ⟨0⟩ := by decide +kernel
  exact ⟨⟨0⟩, .object ⟨0⟩, rfl, rfl, .own (.root below) template, by decide +kernel⟩

/-- The paragraph follows the property that its own one names. -/
theorem quoting_paragraph_follows_other_property :
    quotingMachine.Quiet ∧ Session quotingMachine quotingPast otherAssigned ∧
      quotingMount.Binds ⟨1⟩ .text ⟨0⟩ "a" true ∧ otherAssigned.world.textContent ⟨1⟩ = "y" := by
  have followed := text_elements_follow_property_or_template quoting_quiet quoting_session
    (show quotingPast = [] ++ quotingMount :: [otherAssignment] from rfl) quoting_binds
  exact ⟨quoting_quiet, quoting_session, quoting_binds, followed.trans (by decide +kernel)⟩

/-- A paragraph with a text directive does not show its property right after the mount, and not when
another property has been assigned to. -/
theorem quoting_paragraph_does_not_show_property :
    ∃ (first mounted m : Machine Unit) (e e' : Event) (n : NodeId), first.Quiet ∧
      Session first [e] mounted ∧ Session first [e, e'] m ∧ e.op = .mount ⟨0⟩ (.object ⟨0⟩) ∧
      e'.op = .assign ⟨0⟩ "b" (.string "y") ∧ e.Binds n .text ⟨0⟩ "a" true ∧
      mounted.world.textContent n ≠ (mounted.world.peek ⟨0⟩ "a").textContent ∧
      m.world.textContent n ≠ (m.world.peek ⟨0⟩ "a").textContent :=
  ⟨quotingMachine, quotingMounted, otherAssigned, quotingMount, _, ⟨1⟩, quoting_quiet, quoting_mounted,
    quoting_session, rfl, rfl, quoting_binds, by decide +kernel, by decide +kernel⟩

end Machine
end DataBinding
