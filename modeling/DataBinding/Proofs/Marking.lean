import DataBinding.Proofs.Storing

/-! Binding a node adds its bindings to those that there are. The node's own parts are
written first, then the watcher is added; as nothing that has changed shows in the node,
all earlier bindings stay in order. -/
namespace DataBinding

/-- The role of what a directive binds. -/
def Directive.role : Directive → Role
  | .text => .text
  | .model => .control

namespace World

/-- Every control that is bound has the one listener of its binding, and there are no
others. -/
def Listening (w : World) (marks : List Mark) : Prop :=
  ∀ n, (w.listeners n = [] ∧ ∀ k ∈ marks, k.role = .control → k.node ≠ n) ∨
    ∃ k ∈ marks, k.role = .control ∧ k.node = n ∧ w.listeners n = [.writeBack k.data k.key]

/-- Nothing that has changed shows in the node or is shown by it. -/
def Unshown (w : World) (marks : List Mark) (n : NodeId) : Prop :=
  ∀ k ∈ marks, k.role = .text → k.changed = true → k.node ≠ n ∧ n ∉ w.children k.node

/-- A page can be bound to the data. -/
structure Ready (base first : Nat) (data : ObjectId) (w : World) (marks : List Mark) : Prop where
  ordered : Ordered base first w marks
  listening : Listening w marks
  targets : w.targets = []
  sound : w.Sound
  tracked : w.slot? data key = some slot → ∃ d, slot.dep = some d

/-- The binding that is made next. -/
def nextMark (w : World) (n : NodeId) (role : Role) (data : ObjectId) (key : String) : Mark :=
  ⟨⟨w.subscribers.size⟩, n, role, data, key, (w.slot? data key).isSome, false⟩

/-- Reads are not recorded while nobody collects. -/
theorem read_of_targets {w : World} (targets : w.targets = []) (o : ObjectId) (key : String) :
    w.read o key = (w, w.peek o key) := by
  unfold read depend target?
  rw [targets]
  split <;> rfl

theorem Unshown.touches {w w' : World} (unshown : Unshown w marks n) (touches : Touches n w w') :
    Unshown w' marks n := by
  intro k member role changed
  obtain ⟨apart, outside⟩ := unshown k member role changed
  refine ⟨apart, ?_⟩
  rwa [touches.children apart]

theorem Unshown.append {w : World} (unshown : Unshown w marks n)
    (unchanged : ∀ k ∈ new, k.changed = false) : Unshown w (marks ++ new) n := by
  intro k member role changed
  rcases List.mem_append.mp member with old | late
  · exact unshown k old role changed
  · rw [unchanged k late] at changed
    cases changed

end World

/-- More bindings may be made of other nodes. -/
theorem Mark.InOrder.append {k : Mark} {w : World} (order : k.InOrder first w marks)
    (away : k.role = .text → k.changed = true → ∀ g ∈ w.children k.node, ∀ l ∈ new, l.node ≠ g) :
    k.InOrder first w (marks ++ new) where
  cached := order.cached
  shows := order.shows
  own {g} role changed below := by
    obtain ⟨above, apart⟩ := order.own role changed below
    refine ⟨above, fun l member => ?_⟩
    rcases List.mem_append.mp member with old | late
    · exact apart l old
    · exact away role changed g below l late

theorem Mark.Shows.of_same {k : Mark} {w w' : World} (shows : k.Shows w)
    (nodes : w'.nodes = w.nodes) (objects : w'.objects = w.objects) : k.Shows w' := by
  have page : ∀ n, w'.node? n = w.node? n := fun n => by rw [World.node?, World.node?, nodes]
  unfold Mark.Shows World.ShowsAlone at shows ⊢
  simpa only [page, World.peek_of_objects objects] using shows

namespace World

variable {base first : Nat} {data : ObjectId} {w : World} {marks : List Mark}

/-- The new entry is that of the new watcher, in the list of its property. -/
private theorem entries_watch (w : World) (root : ObjectId) (key : String) (reaction : Reaction)
    (listed : s ∈ (w.watch root key reaction).1.entries d) :
    s ∈ w.entries d ∨ s = ⟨w.subscribers.size⟩ ∧ w.Tracked root key d := by
  cases tracked : (w.properties root).dep? key with
  | none =>
    rw [watch_of_plain reaction tracked] at listed
    exact .inl listed
  | some e =>
    rw [watch_of_dep reaction tracked, entries_register] at listed
    split at listed
    · rename_i here
      obtain ⟨rfl, -⟩ := here
      rcases List.mem_append.mp listed with old | new
      · exact .inl old
      · obtain ⟨slot, found, dep⟩ := Option.bind_eq_some_iff.mp tracked
        exact .inr ⟨List.mem_singleton.mp new, slot, found, dep⟩
    · exact .inl listed

private theorem node?_watch (w : World) (root : ObjectId) (key : String) (reaction : Reaction)
    (m : NodeId) : (w.watch root key reaction).1.node? m = w.node? m := by
  rw [node?, node?, nodes_watch]

private theorem watcher?_watch (w : World) (root : ObjectId) (key : String) (reaction : Reaction) :
    (w.watch root key reaction).1.watcher? ⟨w.subscribers.size⟩ =
      some (w.newWatcher root key reaction) := by
  rw [watcher?, subscriber?_push (subscribers_watch w root key reaction), if_pos rfl]
  rfl

/-- A watcher of a property that exists is on its list from the start. -/
private theorem listed_watch (sound : w.Sound)
    (tracked : ∀ key slot, w.slot? data key = some slot → ∃ d, slot.dep = some d) (key : String)
    (reaction : Reaction) (present : (w.slot? data key).isSome = true) :
    ∃ d, (w.watch data key reaction).1.Tracked data key d ∧
      ⟨w.subscribers.size⟩ ∈ (w.watch data key reaction).1.entries d := by
  have grows := (Move.watch w data key reaction).grows
  have watching := watcher?_watch w data key reaction
  obtain ⟨slot, found⟩ := Option.isSome_iff_exists.mp present
  obtain ⟨d, dep⟩ := tracked _ _ found
  have unknown : ¬w.Known ⟨w.subscribers.size⟩ := Nat.lt_irrefl _
  obtain ⟨-, entry⟩ := grows.fresh unknown watching found dep (sound.dep found dep)
  exact ⟨d, ⟨slot, grows.tracked found dep, dep⟩, entry⟩

private theorem linked_watch (linked : Linked base w marks) (sound : w.Sound)
    (tracked : ∀ key slot, w.slot? data key = some slot → ∃ d, slot.dep = some d) (role : Role)
    (key : String) (fits : ∃ x, w.node? n = some x ∧ role.Fits x)
    (apart : ∀ k ∈ marks, k.part ≠ role.part n) :
    Linked base (w.watch data key (role.reaction n)).1 (marks ++ [w.nextMark n role data key]) := by
  have grows := (Move.watch w data key (role.reaction n)).grows
  have kept : ∀ {o' key' d'}, w.Tracked o' key' d' →
      (w.watch data key (role.reaction n)).1.Tracked o' key' d' := by
    rintro o' key' d' ⟨slot, found, listed⟩
    exact ⟨slot, grows.tracked found listed, listed⟩
  have last : ∀ {k}, k ∈ marks ++ [w.nextMark n role data key] →
      k ∈ marks ∨ k = w.nextMark n role data key := fun member =>
    (List.mem_append.mp member).imp_right List.mem_singleton.mp
  constructor
  · rw [subscribers_watch, Arena.size_push]
    exact Nat.le_succ_of_le linked.issued
  · intro k member
    rcases last member with old | rfl
    · obtain ⟨above, cached, found⟩ := linked.watcher old
      exact ⟨above, cached, grows.watcher found⟩
    · exact ⟨linked.issued, _, watcher?_watch w data key (role.reaction n)⟩
  · intro k member present
    rcases last member with old | rfl
    · obtain ⟨d, property, entry⟩ := linked.listed old present
      exact ⟨d, kept property, (grows.entries d).subset entry⟩
    · exact listed_watch sound tracked key (role.reaction n) present
  · intro s d entry
    rcases entries_watch w data key (role.reaction n) entry with old | ⟨rfl, slot, found, dep⟩
    · rcases linked.entries old with early | ⟨k, member, same, present, property⟩
      · exact .inl early
      · exact .inr ⟨k, List.mem_append_left _ member, same, present, kept property⟩
    · refine .inr ⟨w.nextMark n role data key, List.mem_append_right _ (List.mem_singleton_self _),
        rfl, ?_, kept ⟨slot, found, dep⟩⟩
      simp [nextMark, found]
  · intro k l member other same
    rcases last member with old | rfl
    · rcases last other with old' | rfl
      · exact linked.apart old old' same
      · exact absurd same (apart k old)
    · rcases last other with old' | rfl
      · exact absurd same.symm (apart l old')
      · rfl
  · intro k member
    rw [node?_watch]
    rcases last member with old | rfl
    · exact linked.fits old
    · exact fits
  · intro k member changed
    rcases last member with old | rfl
    · exact linked.since old changed
    · cases changed

/-- Adding the watcher completes a binding whose node shows the property already. -/
theorem Ordered.watch (ordered : Ordered base first w marks) (sound : w.Sound)
    (tracked : ∀ key slot, w.slot? data key = some slot → ∃ d, slot.dep = some d) (role : Role)
    (key : String) (fits : ∃ x, w.node? n = some x ∧ role.Fits x)
    (shows : (w.nextMark n role data key).Shows w) (apart : ∀ k ∈ marks, k.part ≠ role.part n)
    (unshown : Unshown w marks n) :
    Ordered base first (w.watch data key (role.reaction n)).1
      (marks ++ [w.nextMark n role data key]) := by
  have linked := linked_watch ordered.linked sound tracked role key fits apart
  have grows := (Move.watch w data key (role.reaction n)).grows
  have nodes := nodes_watch w data key (role.reaction n)
  have objects := objects_watch w data key (role.reaction n)
  have watching := watcher?_watch w data key (role.reaction n)
  have page := node?_watch w data key (role.reaction n)
  generalize (w.watch data key (role.reaction n)).1 = w' at linked grows nodes objects watching page ⊢
  refine ⟨linked, nodes ▸ ordered.pages, fun {k} member => ?_⟩
  rcases List.mem_append.mp member with old | new
  · obtain ⟨-, cached, found⟩ := ordered.linked.watcher old
    have spares : Spares (fun _ => False) w w' := .of_nodes nodes
    have same : w'.watcher? k.watcher = w.watcher? k.watcher := (grows.watcher found).trans found.symm
    have value := peek_of_objects objects k.data k.key
    have order := (ordered.order old).spared spares same (ordered.linked.since old) (fun _ => value)
      not_false (by simp)
    apply order.append
    intro role changed g below l late away
    obtain rfl := List.mem_singleton.mp late
    have outside := (unshown k old role changed).2
    rw [show n = g from away] at outside
    rw [children, page] at below
    exact outside below
  · obtain rfl := List.mem_singleton.mp new
    refine ⟨fun _ => ?_, shows.of_same nodes objects, fun _ changed => by cases changed⟩
    rw [peek_of_objects objects]
    exact watching

/-- Writing a part of the node in which no binding shows anything yet. -/
private theorem Ordered.written {w' : World} (ordered : Ordered base first w marks)
    (moves : Moves w w') (subscribers : w'.subscribers = w.subscribers) (deps : w'.deps = w.deps)
    (spares : Spares (· = part) w w') (apart : ∀ k ∈ marks, k.part ≠ part)
    (here : part = .text n ∨ part = .value n ∨ part = .listeners n) (unshown : Unshown w marks n) :
    Ordered base first w' marks := by
  apply ordered.kept moves.grows subscribers (entries_of_deps deps) spares apart
  intro k member role changed g below
  have outside : g ≠ n := fun same => (unshown k member role changed).2 (same ▸ below)
  refine ⟨?_, ?_, ?_⟩
  all_goals
    rintro rfl
    simp_all

theorem Listening.append {w' : World} (listening : Listening w marks)
    (same : ∀ n, w'.listeners n = w.listeners n) (none : ∀ k ∈ new, k.role ≠ .control) :
    Listening w' (marks ++ new) := by
  intro n
  rcases listening n with ⟨silent, nobody⟩ | ⟨k, member, role, node, listeners⟩
  · refine .inl ⟨(same n).trans silent, fun k member role => ?_⟩
    rcases List.mem_append.mp member with old | late
    · exact nobody k old role
    · exact absurd role (none k late)
  · exact .inr ⟨k, List.mem_append_left _ member, role, node, (same n).trans listeners⟩

/-- A binding that sets the text of its node. -/
private theorem ready_text (ready : Ready base first data w marks) (role : Role) (key content : String)
    (writes : role.reaction n = .showText n) (fits : ∃ x, (w.setText n content).node? n = some x ∧ role.Fits x)
    (shows : (w.nextMark n role data key).Shows (w.setText n content)) (unshown : Unshown w marks n)
    (apart : ∀ k ∈ marks, k.part ≠ .text n) :
    Ordered base first ((w.setText n content).watch data key (.showText n)).1
        (marks ++ [w.nextMark n role data key]) ∧
      Listening ((w.setText n content).watch data key (.showText n)).1
        (marks ++ [w.nextMark n role data key]) := by
  have moves := moves_setText w n content
  have objects := objects_setText w n content
  have subscribers := subscribers_setText w n content
  have spares := spares_setText w n content
  have deps := deps_setText w n content
  have mark : (w.setText n content).nextMark n role data key = w.nextMark n role data key := by
    simp only [nextMark, subscribers, slot?_of_objects objects]
  have part : role.part n = .text n := by
    cases role <;> simp_all [Role.reaction, Role.part]
  rw [← mark] at shows ⊢
  constructor
  · rw [← writes]
    refine Ordered.watch ?_ (moves.sound ready.sound) ?_ role key fits shows (part ▸ apart) ?_
    · exact ready.ordered.written moves subscribers deps spares apart (.inl rfl) unshown
    · intro key slot property
      exact ready.tracked ((slot?_of_objects objects data key).symm.trans property)
    · exact unshown.touches (touches_setText w n _)
  · refine ready.listening.append (fun m => ?_) ?_
    · rw [listeners, node?, nodes_watch]
      exact spares.listeners (by simp)
    · intro k member role'
      obtain rfl := List.mem_singleton.mp member
      have same : role = .control := role'
      rw [same] at writes
      cases writes

private theorem ready_control (ready : Ready base first data w marks) (key : String)
    (found : w.node? n = some (.element e)) (unshown : Unshown w marks n)
    (apart : ∀ k ∈ marks, k.part ≠ .value n) :
    Ordered base first (w.applyDirective data n key .model).1
        (marks ++ [w.nextMark n .control data key]) ∧
      Listening (w.applyDirective data n key .model).1 (marks ++ [w.nextMark n .control data key]) := by
  let v := w.peek data key
  let held := w.setControlValue n v.formValue
  let page := held.listen n (.writeBack data key)
  have same : w.applyDirective data n key .model = page.watch data key (.showValue n) := by
    simp only [applyDirective, read_of_targets ready.targets]
    rfl
  have moves := moves_setControlValue w n v.formValue
  have moves' := moves_listen held n (.writeBack data key)
  have shown := node?_setControlValue_element v.formValue found
  have listening := node?_listen_element (.writeBack data key) shown
  have quiet : w.listeners n = [] := by
    rcases ready.listening n with ⟨silent, -⟩ | ⟨k, member, role, node, -⟩
    · exact silent
    · have part : k.part = .value n := by simp [Mark.part, role, node, Role.part]
      exact absurd part (apart k member)
  rw [same]
  constructor
  · have ordered : Ordered base first held marks :=
      ready.ordered.written moves rfl rfl (spares_setControlValue w n _) apart (.inr (.inl rfl)) unshown
    have still : Unshown held marks n := unshown.touches (touches_modifyNode w n _)
    have ordered' : Ordered base first page marks :=
      ordered.written moves' rfl rfl (spares_listen held n _)
        (fun k _ => k.part_ne_listeners n) (.inr (.inr rfl)) still
    refine Ordered.watch ordered' (moves'.sound (moves.sound ready.sound)) ?_ .control key
      ⟨_, listening, trivial⟩ ?_ apart ?_
    · exact fun key slot property => ready.tracked property
    · exact ⟨_, listening, fun _ => rfl⟩
    · exact still.touches (touches_modifyNode held n _)
  · intro m
    have watched : (page.watch data key (.showValue n)).1.listeners m = page.listeners m := by
      rw [listeners, node?, nodes_watch]
      rfl
    rw [watched]
    by_cases here : m = n
    · subst here
      refine .inr ⟨w.nextMark m .control data key, List.mem_append_right _ (List.mem_singleton_self _),
        rfl, rfl, ?_⟩
      have before : e.listeners = [] := by
        simpa [World.listeners, found, Node.listeners] using quiet
      have after : page.listeners m = e.listeners ++ [.writeBack data key] := by
        simp [World.listeners, page, held, listening, Node.listeners]
      rw [after, before]
      rfl
    · have untouched : page.listeners m = w.listeners m :=
        ((spares_listen held n _).listeners (by simp [here])).trans
          ((spares_setControlValue w n _).listeners (by simp))
      rcases ready.listening m with ⟨silent, nobody⟩ | ⟨k, member, role, node, listeners⟩
      · refine .inl ⟨untouched.trans silent, fun k member role => ?_⟩
        rcases List.mem_append.mp member with old | late
        · exact nobody k old role
        · obtain rfl := List.mem_singleton.mp late
          exact fun node => here node.symm
      · exact .inr ⟨k, List.mem_append_left _ member, role, node, untouched.trans listeners⟩

/-- Binding has added bindings, one for each that was to be made, with these watchers. -/
structure Adds (base first : Nat) (data : ObjectId) (w : World) (marks : List Mark)
    (own : List SubscriberId) (w' : World) (new : List Mark)
    (bound : NodeId → Role → String → Prop) : Prop where
  ready : Ready base first data w' (marks ++ new)
  watchers : new.map (·.watcher) = own
  objects : w'.objects = w.objects
  fresh : k ∈ new → k.data = data ∧ k.changed = false ∧ k.present = (w.slot? data k.key).isSome
  bound : (∃ k ∈ new, k.node = n ∧ k.role = role ∧ k.key = key) ↔ bound n role key

namespace Adds

theorem nil (ready : Ready base first data w marks) :
    Adds base first data w marks [] w [] fun _ _ _ => False where
  ready := (List.append_nil marks).symm ▸ ready
  watchers := rfl
  objects := rfl
  fresh member := absurd member List.not_mem_nil
  bound := by simp

theorem append {b c : World} {bound bound' : NodeId → Role → String → Prop}
    (one : Adds base first data w marks xs b new bound)
    (two : Adds base first data b (marks ++ new) ys c more bound') :
    Adds base first data w marks (xs ++ ys) c (new ++ more)
      fun n role key => bound n role key ∨ bound' n role key where
  ready := (List.append_assoc marks new more) ▸ two.ready
  watchers := by rw [List.map_append, one.watchers, two.watchers]
  objects := two.objects.trans one.objects
  fresh {k} member := by
    rcases List.mem_append.mp member with early | late
    · exact one.fresh early
    · obtain ⟨same, unchanged, present⟩ := two.fresh late
      rw [slot?_of_objects one.objects] at present
      exact ⟨same, unchanged, present⟩
  bound {n role key} := by
    rw [← one.bound, ← two.bound]
    constructor
    · rintro ⟨k, member, facts⟩
      rcases List.mem_append.mp member with early | late
      · exact .inl ⟨k, early, facts⟩
      · exact .inr ⟨k, late, facts⟩
    · rintro (⟨k, early, facts⟩ | ⟨k, late, facts⟩)
      · exact ⟨k, List.mem_append_left _ early, facts⟩
      · exact ⟨k, List.mem_append_right _ late, facts⟩

theorem of_iff {bound bound' : NodeId → Role → String → Prop}
    (adds : Adds base first data w marks own w' new bound)
    (same : ∀ n role key, bound n role key ↔ bound' n role key) :
    Adds base first data w marks own w' new bound' where
  ready := adds.ready
  watchers := adds.watchers
  objects := adds.objects
  fresh := adds.fresh
  bound := adds.bound.trans (same _ _ _)

/-- One binding is added. -/
private theorem single {w' : World} {role : Role}
    (ordered : Ordered base first w' (marks ++ [w.nextMark n role data key]))
    (listening : Listening w' (marks ++ [w.nextMark n role data key])) (targets : w'.targets = [])
    (sound : w'.Sound) (objects : w'.objects = w.objects)
    (tracked : ∀ key slot, w.slot? data key = some slot → ∃ d, slot.dep = some d) :
    Adds base first data w marks [⟨w.subscribers.size⟩] w' [w.nextMark n role data key]
      fun m role' key' => m = n ∧ role' = role ∧ key' = key where
  ready := by
    refine ⟨ordered, listening, targets, sound, fun {key slot} property => ?_⟩
    exact tracked key slot ((slot?_of_objects objects data key).symm.trans property)
  watchers := rfl
  objects := objects
  fresh member := by
    obtain rfl := List.mem_singleton.mp member
    exact ⟨rfl, rfl, rfl⟩
  bound := by simp [nextMark, eq_comm]

end Adds

private theorem adds_applyDirective (ready : Ready base first data w marks) (d : Directive)
    (key : String) (found : w.node? n = some (.element e)) (unshown : Unshown w marks n)
    (apart : ∀ k ∈ marks, k.part ≠ d.role.part n) :
    (w.applyDirective data n key d).2 = ⟨w.subscribers.size⟩ ∧
    Adds base first data w marks [⟨w.subscribers.size⟩] (w.applyDirective data n key d).1
      [w.nextMark n d.role data key] fun m role' key' => m = n ∧ role' = d.role ∧ key' = key := by
  have moves : Moves w (w.applyDirective data n key d).1 := (moves_binding data n).applyDirective w key d
  have sound := moves.sound ready.sound
  have targets := targets_of_custody ((issues_binding data n).applyDirective w key d).custody
  have reads := read_of_targets ready.targets data key
  cases d with
  | text =>
    have shown := node?_setText_element (w.peek data key).textContent found
    obtain ⟨ordered, listening⟩ := ready_text ready .text key (w.peek data key).textContent rfl
      ⟨_, shown, trivial⟩ ⟨_, shown, fun changed => nomatch changed⟩ unshown apart
    have objects : (w.applyDirective data n key .text).1.objects = w.objects := by
      simp only [applyDirective, reads, objects_watch, objects_setText]
    have same : w.applyDirective data n key .text =
        (w.setText n (w.peek data key).textContent).watch data key (.showText n) := by
      simp only [applyDirective, reads]
    rw [← same] at ordered listening
    refine ⟨?_, .single ordered listening (targets.trans ready.targets) sound objects
      fun key slot property => ready.tracked property⟩
    rw [same]
    exact congrArg SubscriberId.mk (by rw [subscribers_setText])
  | model =>
    obtain ⟨ordered, listening⟩ := ready_control ready key found unshown apart
    have objects : (w.applyDirective data n key .model).1.objects = w.objects := by
      simp only [applyDirective, reads, objects_watch]
      rfl
    refine ⟨?_, .single ordered listening (targets.trans ready.targets) sound objects
      fun key slot property => ready.tracked property⟩
    simp only [applyDirective, reads]
    rfl

/-- What the page has a binding for: the interpolation of a text, or a directive. -/
inductive Template (w : World) (data : ObjectId) (n : NodeId) : Role → String → Prop where
  | label (found : w.node? n = some (.text content))
      (interpolates : Text.Interpolation.find? content = some f) :
      Template w data n (.label (f.substitute (w.peek data f.key).display)) f.key
  | directive (found : w.node? n = some (.element e)) (listed : a ∈ e.attributes)
      (named : Directive.ofAttribute? a.name = some d) : Template w data n d.role a.value

theorem template_of_text (found : w.node? n = some (.text content)) :
    w.Template data n role key ↔ ∃ f, Text.Interpolation.find? content = some f ∧
      role = .label (f.substitute (w.peek data f.key).display) ∧ key = f.key := by
  constructor
  · intro template
    cases template with
    | label found' interpolates =>
      obtain rfl := Node.text.inj (Option.some.inj (found'.symm.trans found))
      exact ⟨_, interpolates, rfl, rfl⟩
    | directive found' =>
      rw [found] at found'
      cases found'
  · rintro ⟨f, interpolates, rfl, rfl⟩
    exact .label found interpolates

theorem template_of_element (found : w.node? n = some (.element e)) :
    w.Template data n role key ↔ ∃ a ∈ e.attributes, ∃ d, Directive.ofAttribute? a.name = some d ∧
      role = d.role ∧ key = a.value := by
  constructor
  · intro template
    cases template with
    | label found' =>
      rw [found] at found'
      cases found'
    | directive found' listed named =>
      obtain rfl := Node.element.inj (Option.some.inj (found'.symm.trans found))
      exact ⟨_, listed, _, named, rfl, rfl⟩
  · rintro ⟨a, listed, d, named, rfl, rfl⟩
    exact .directive found listed named

private theorem adds_bindAttributes (ready : Ready base first data w marks)
    (attributes : List Attribute) (found : w.node? n = some (.element e))
    (unshown : Unshown w marks n) (names : (attributes.map (·.name)).Nodup)
    (apart : ∀ a ∈ attributes, ∀ d, Directive.ofAttribute? a.name = some d →
      ∀ k ∈ marks, k.part ≠ d.role.part n) :
    ∃ new, Adds base first data w marks (w.bindAttributes data n attributes).2
      (w.bindAttributes data n attributes).1 new fun m role key => m = n ∧
        ∃ a ∈ attributes, ∃ d, Directive.ofAttribute? a.name = some d ∧ role = d.role ∧
          key = a.value := by
  induction attributes generalizing w e marks with
  | nil => exact ⟨[], (Adds.nil ready).of_iff (by simp)⟩
  | cons a rest ih =>
    obtain ⟨fresh, names⟩ := List.nodup_cons.mp names
    have later : ∀ b ∈ rest, ∀ d, Directive.ofAttribute? b.name = some d →
        ∀ k ∈ marks, k.part ≠ d.role.part n :=
      fun b listed => apart b (List.mem_cons_of_mem _ listed)
    cases named : Directive.ofAttribute? a.name with
    | none =>
      obtain ⟨new, adds⟩ := ih ready found unshown names later
      simp only [bindAttributes, named]
      exact ⟨new, adds.of_iff (by simp [named])⟩
    | some d =>
      obtain ⟨id, one⟩ := adds_applyDirective ready d a.value found unshown
        (apart a List.mem_cons_self d named)
      have touches := (touches_binding data n).applyDirective w a.value d
      have minds : Minds data a.value n w _ (w.applyDirective data n a.value d).1 :=
        minds_applyDirective w n a.value d fun _ _ => rfl
      obtain ⟨e', found', -⟩ := minds.element found
      have unshown' : Unshown (w.applyDirective data n a.value d).1
          (marks ++ [w.nextMark n d.role data a.value]) n :=
        (unshown.touches touches).append (by simp [nextMark])
      obtain ⟨more, adds⟩ := ih one.ready found' unshown' names fun b listed d' named' k member => by
        rcases List.mem_append.mp member with old | new
        · exact later b listed d' named' k old
        · obtain rfl := List.mem_singleton.mp new
          intro same
          -- Two directives for one part of the node would have one name.
          have equal : d = d' := by cases d <;> cases d' <;> simp_all [Mark.part, nextMark,
            Directive.role, Role.part]
          subst equal
          have twice : b.name = a.name := eq_of_ofAttribute named' named
          have again : b.name ∈ rest.map (·.name) := List.mem_map_of_mem listed
          rw [twice] at again
          exact fresh again
      simp only [bindAttributes, named, id]
      refine ⟨_, (one.append adds).of_iff fun m role key => ?_⟩
      simp only [List.mem_cons, exists_eq_or_imp, named, Option.some.injEq, exists_eq_left']
      rw [← and_or_left]

/-- Binding a text adds the binding of its interpolation, if it has one. -/
private theorem adds_bindText (ready : Ready base first data w marks)
    (found : w.node? n = some (.text content)) (unshown : Unshown w marks n)
    (unwritten : ∀ k ∈ marks, k.part ≠ .text n) :
    ∃ new, Adds base first data w marks (w.bindText data n content).2 (w.bindText data n content).1 new
      fun m role key => m = n ∧ w.Template data n role key := by
  have moves : Moves w (w.bindNode data n).1 := (moves_binding data n).bindNode w
  have targets := targets_of_custody ((issues_binding data n).bindNode w).custody
  have here : w.bindNode data n = w.bindText data n content := by simp only [bindNode, found]
  rw [here] at moves targets
  simp only [template_of_text found]
  cases interpolates : Text.Interpolation.find? content with
  | none =>
    have nothing : w.bindText data n content = (w, []) := by simp only [bindText, interpolates]
    rw [nothing]
    exact ⟨[], (Adds.nil ready).of_iff (by simp)⟩
  | some f =>
    let initial := f.substitute (w.peek data f.key).display
    have shown : (w.setText n initial).node? n = some (.text initial) :=
      node?_setText_text initial found
    obtain ⟨ordered, listening⟩ := ready_text ready (.label initial) f.key initial rfl
      ⟨_, shown, trivial⟩ shown unshown unwritten
    have bound : w.bindText data n content =
        (((w.setText n initial).watch data f.key (.showText n)).1, [⟨w.subscribers.size⟩]) := by
      simp only [bindText, interpolates, read_of_targets ready.targets]
      refine congrArg (Prod.mk _) (congrArg (· :: []) (congrArg SubscriberId.mk ?_))
      rw [subscribers_setText]
    have objects : ((w.setText n initial).watch data f.key (.showText n)).1.objects = w.objects := by
      rw [objects_watch, objects_setText]
    rw [bound] at moves targets ⊢
    have adds := Adds.single ordered listening (targets.trans ready.targets) (moves.sound ready.sound)
      objects fun key slot => ready.tracked
    exact ⟨_, adds.of_iff (by simp [initial])⟩

/-- Binding a node that shows nothing yet adds its bindings. -/
theorem adds_bindNode (ready : Ready base first data w marks) (found : w.node? n = some x)
    (unshown : Unshown w marks n) (unmarked : ∀ k ∈ marks, k.node ≠ n) :
    ∃ new, Adds base first data w marks (w.bindNode data n).2 (w.bindNode data n).1 new
      fun m role key => m = n ∧ w.Template data n role key := by
  have apart : ∀ k ∈ marks, ∀ role : Role, k.part ≠ role.part n := by
    intro k member role same
    refine unmarked k member (Mark.node_of_part ?_)
    cases role
    · exact .inl same
    · exact .inl same
    · exact .inr same
  cases x with
  | text content =>
    simp only [bindNode, found]
    exact adds_bindText ready found unshown fun k member => apart k member .text
  | element e =>
    obtain ⟨new, adds⟩ := adds_bindAttributes ready e.attributes found unshown
      (ready.sound.tidy found) fun a _ d _ k member => apart k member d.role
    simp only [bindNode, found]
    refine ⟨new, adds.of_iff fun m role key => ?_⟩
    constructor
    · rintro ⟨rfl, among⟩
      exact ⟨rfl, (template_of_element found).mpr among⟩
    · rintro ⟨rfl, template⟩
      exact ⟨rfl, (template_of_element found).mp template⟩

end World
end DataBinding
