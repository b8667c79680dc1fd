import DataBinding.Proofs.Editing
import DataBinding.Proofs.Telling

/-! Storing a value while all watchers are bindings of mounted pages. If the value is new to
a tracked property, its bindings are out of order until all have been told; any other
write leaves all bindings in order. -/
namespace DataBinding

namespace World

/-- The world when a value has been stored and all watchers have been told of it. -/
def stored (w : World) (o : ObjectId) (key : String) (v : Value) : World :=
  match w.write o key v with
  | (w, none) => w
  | (w, some d) =>
    let live := (w.entries d).filter w.holds
    live.foldl tell { w with deps := w.deps.modify d.index fun _ => live }

end World

namespace Mark

/-- A binding once a value has been stored. -/
def after (w : World) (o : ObjectId) (key : String) (v : Value) (k : Mark) : Mark :=
  { k with changed := k.changed || (w.changes o key v && k.present && k.data == o && k.key == key) }

variable {w : World} {o : ObjectId} {key : String} {v : Value}

theorem after_of_other {k : Mark}
    (other : w.changes o key v = false ∨ k.present = false ∨ ¬(k.data = o ∧ k.key = key)) :
    k.after w o key v = k := by
  have still : (w.changes o key v && k.present && k.data == o && k.key == key) = false := by
    rcases other with same | absent | apart
    · simp [same]
    · simp [absent]
    · by_cases data : k.data = o
      · have named : k.key ≠ key := fun named => apart ⟨data, named⟩
        simp [named]
      · simp [data]
  simp [after, still]

theorem changed_after {k : Mark} (changes : w.changes o key v = true) (present : k.present = true)
    (data : k.data = o) (named : k.key = key) : (k.after w o key v).changed = true := by
  simp [after, changes, present, data, named]

end Mark

namespace World

variable {base first : Nat} {w : World} {marks : List Mark} {o : ObjectId} {key : String} {v : Value}

private theorem mem_after (member : k ∈ marks.map (·.after w o key v)) :
    ∃ k' ∈ marks, k'.after w o key v = k :=
  List.mem_map.mp member

/-- That a property has changed since alters no link. -/
private theorem Linked.after {now : World} (linked : Linked base now marks) :
    Linked base now (marks.map (·.after w o key v)) where
  issued := linked.issued
  watcher member := by
    obtain ⟨k, before, rfl⟩ := mem_after member
    have watching := linked.watcher before
    exact watching
  listed member present := by
    obtain ⟨k, before, rfl⟩ := mem_after member
    have entry := linked.listed before present
    exact entry
  entries entry := by
    rcases linked.entries entry with old | ⟨k, member, same⟩
    · exact .inl old
    · exact .inr ⟨k.after w o key v, List.mem_map_of_mem member, same⟩
  apart member other same := by
    obtain ⟨k, before, rfl⟩ := mem_after member
    obtain ⟨l, before', rfl⟩ := mem_after other
    rw [linked.apart before before' same]
  fits member := by
    obtain ⟨k, before, rfl⟩ := mem_after member
    have fits := linked.fits before
    exact fits
  since member changed := by
    obtain ⟨k, before, rfl⟩ := mem_after member
    simp only [Mark.after, Bool.or_eq_true, Bool.and_eq_true] at changed
    rcases changed with old | ⟨⟨⟨-, present⟩, -⟩, -⟩
    · have present := linked.since before old
      exact present
    · exact present

private theorem inOrder_after {k : Mark} {now : World} (order : k.InOrder first now marks) :
    k.InOrder first now (marks.map (·.after w o key v)) where
  cached := order.cached
  shows := order.shows
  own role changed below := by
    obtain ⟨above, away⟩ := order.own role changed below
    refine ⟨above, fun l member => ?_⟩
    obtain ⟨l', before, rfl⟩ := mem_after member
    exact away l' before

private theorem after_eq_self (other : ∀ k ∈ marks, w.changes o key v = false ∨ k.present = false ∨
    ¬(k.data = o ∧ k.key = key)) : marks.map (·.after w o key v) = marks :=
  (List.map_congr_left fun k member => Mark.after_of_other (other k member)).trans (List.map_id _)

theorem Linked.kept {w' : World} (linked : Linked base w marks) (grows : Grows w w')
    (subscribers : w'.subscribers = w.subscribers) (entries : ∀ d, w'.entries d = w.entries d)
    (spares : Spares touched w w') : Linked base w' marks := by
  apply linked.of_same spares
  · exact Nat.le_of_eq (by rw [subscribers])
  · intro k _ x found
    exact ⟨x.cached, (watcher?_of_subscribers subscribers _).trans found⟩
  · rintro o key d ⟨slot, found, tracked⟩
    exact ⟨slot, grows.tracked found tracked, tracked⟩
  · intro s d listed
    exact entries d ▸ listed
  · intro k _ d listed
    exact (entries d).symm ▸ listed

/-- Where watchers and entries stay and tracked properties keep their values, all bindings
stay in order whose part of the page is spared. -/
theorem Ordered.kept {w' : World} (ordered : Ordered base first w marks) (grows : Grows w w')
    (subscribers : w'.subscribers = w.subscribers) (entries : ∀ d, w'.entries d = w.entries d)
    (spares : Spares touched w w') (apart : ∀ k ∈ marks, ¬touched k.part)
    (below : ∀ k ∈ marks, k.role = .text → k.changed = true → ∀ g ∈ w.children k.node,
      ¬touched (.text g) ∧ ¬touched (.value g) ∧ ¬touched (.listeners g)) :
    Ordered base first w' marks := by
  constructor
  · exact ordered.linked.kept grows subscribers entries spares
  · exact Nat.le_trans ordered.pages spares.size
  · intro k member
    refine (ordered.order member).spared spares (watcher?_of_subscribers subscribers _)
      (ordered.linked.since member) (fun present => ?_) (apart k member) (below k member)
    obtain ⟨d, ⟨slot, found, tracked⟩, -⟩ := ordered.linked.listed member present
    exact (peek_of_slot (grows.tracked found tracked)).trans (peek_of_slot found).symm

/-- Bindings stay in order while pages do not change either. -/
theorem Ordered.of_grows {w' : World} (ordered : Ordered base first w marks) (grows : Grows w w')
    (nodes : w'.nodes = w.nodes) (subscribers : w'.subscribers = w.subscribers)
    (entries : ∀ d, w'.entries d = w.entries d) : Ordered base first w' marks := by
  have spares : Spares (fun _ => False) w w' := .of_nodes nodes
  exact ordered.kept grows subscribers entries spares (by simp) (by simp)

/-- Every binding is in order, except that controls of a property may hold a value already
that is about to be stored. -/
structure Awaits (base first : Nat) (o : ObjectId) (key : String) (v : Value) (w : World)
    (marks : List Mark) : Prop where
  linked : Linked base w marks
  pages : first ≤ w.nodes.size
  order : k ∈ marks → k.InOrder first w marks ∨
    (k.present = true ∧ k.data = o ∧ k.key = key) ∧ k.role = .control ∧
      w.watcher? k.watcher = some ⟨k.data, k.key, w.peek k.data k.key, k.reaction⟩ ∧
      ∃ e, w.node? k.node = some (.element e) ∧ e.value = v.formValue

theorem Ordered.awaits (ordered : Ordered base first w marks) (o : ObjectId) (key : String)
    (v : Value) : Awaits base first o key v w marks :=
  ⟨ordered.linked, ordered.pages, fun member => .inl (ordered.order member)⟩

/-- If storing the value changes nothing, the controls held the property all the time. -/
private theorem Awaits.ordered (awaits : Awaits base first o key v w marks)
    (silent : w.write o key v = (w', none)) : Ordered base first w marks where
  linked := awaits.linked
  pages := awaits.pages
  order {k} member := by
    rcases awaits.order member with order | ⟨⟨present, rfl, rfl⟩, role, cached, e, found, holds⟩
    · exact order
    · refine ⟨fun _ => cached, ?_, fun text => by rw [role] at text; cases text⟩
      unfold Mark.Shows
      rw [role]
      refine ⟨e, found, fun _ => ?_⟩
      obtain ⟨d, ⟨slot, property, tracked⟩, -⟩ := awaits.linked.listed member present
      have same : slot.value.same v = true := by
        rcases write_eq_none silent with ⟨absent, -⟩ | ⟨slot', found, ⟨plain, -⟩ | ⟨same, -⟩⟩
        · cases absent.symm.trans property
        · obtain rfl := Option.some.inj (found.symm.trans property)
          cases plain.symm.trans tracked
        · obtain rfl := Option.some.inj (found.symm.trans property)
          exact same
      have agrees : slot.value.Agrees v := .inl same
      rw [holds, peek_of_slot property, Value.formValue_of_agrees agrees]

/-- A write that tells nobody concerns none of the bindings. -/
private theorem ordered_silent (ordered : Ordered base first w marks)
    (silent : w.write o key v = (w', none)) :
    Ordered base first w' (marks.map (·.after w o key v)) ∧ w'.nodes = w.nodes := by
  have grows := (moves_write silent).grows
  have same : w'.nodes = w.nodes ∧ w'.subscribers = w.subscribers ∧ w'.deps = w.deps ∧
      (w.changes o key v = false ∨ ∀ d, ¬w.Tracked o key d) := by
    unfold changes
    rcases write_eq_none silent with ⟨absent, rfl⟩ | ⟨slot, found, ⟨plain, rfl⟩ | ⟨unchanged, rfl⟩⟩
    · exact ⟨rfl, rfl, rfl, .inl (by simp [slot?, absent])⟩
    · refine ⟨rfl, rfl, rfl, .inr ?_⟩
      rintro d ⟨slot', present, tracked⟩
      obtain rfl := Option.some.inj (present.symm.trans found)
      cases plain.symm.trans tracked
    · exact ⟨rfl, rfl, rfl, .inl (by simp [found, unchanged])⟩
  obtain ⟨nodes, subscribers, deps, concerns⟩ := same
  refine ⟨?_, nodes⟩
  rw [after_eq_self]
  · exact ordered.of_grows grows nodes subscribers (entries_of_deps deps)
  · intro k member
    rcases concerns with same | untracked
    · exact .inl same
    · cases present : k.present with
      | false => exact .inr (.inl rfl)
      | true =>
        obtain ⟨d, tracked, -⟩ := ordered.linked.listed member present
        refine .inr (.inr ?_)
        rintro ⟨rfl, rfl⟩
        exact untracked d tracked

/-- The world when a value has been stored in a tracked property, and those that are gone
have been taken off its list. -/
def announced (w : World) (o : ObjectId) (key : String) (v : Value) (d : DepId) : World :=
  let now := (w.modifyObject o (·.replace key v)).observe v
  { now with deps := now.deps.modify d.index fun _ => (now.entries d).filter now.holds }

theorem entries_announced (w : World) (o : ObjectId) (key : String) (v : Value) (d d' : DepId) :
    (w.announced o key v d).entries d' =
      if d = d' then (w.entries d').filter w.holds else w.entries d' := by
  let now := (w.modifyObject o (·.replace key v)).observe v
  have before : ∀ d, now.entries d = w.entries d := fun d => entries_observe _ v d
  have holds : now.holds = w.holds := funext fun s => holds_of_custody (custody_observe _ v)
  rw [← before, ← holds]
  change World.entries { now with
    deps := now.deps.modify d.index fun _ => (now.entries d).filter now.holds } d' = _
  by_cases same : d = d'
  · subst same
    cases listed : now.deps.get? d.index <;> simp [entries, Arena.get?_modify, listed]
  · have apart : d.index ≠ d'.index := fun eq => same (by cases d; cases d'; simp_all)
    simp [entries, Arena.get?_modify, same, apart]

/-- Storing changes the value of one property. -/
theorem slot?_announced (d : DepId)
    (property : w.slot? o' key' = some slot') (tracked' : slot'.dep = some d') :
    (w.announced o key v d).slot? o' key' =
      some (if o' = o ∧ key' = key then { slot' with value := v } else slot') := by
  have grows := (moves_observe (w.modifyObject o (·.replace key v)) v).grows
  split
  · rename_i same
    obtain ⟨rfl, rfl⟩ := same
    exact grows.tracked (slot?_replace_self v property) tracked'
  · rename_i other
    exact grows.tracked (slot?_replace_other v property other) tracked'

private theorem linked_announced (linked : Linked base w marks)
    (held : ∀ k ∈ marks, w.holds k.watcher = true) (d : DepId) :
    Linked base (w.announced o key v d) marks := by
  have subscribers : (w.announced o key v d).subscribers = w.subscribers := subscribers_observeAll _ _
  have spares : Spares (fun _ => False) w (w.announced o key v d) :=
    .of_nodes (nodes_observeAll _ _)
  apply linked.of_same spares
  · exact Nat.le_of_eq (by rw [subscribers])
  · intro k _ x present
    exact ⟨x.cached, (watcher?_of_subscribers subscribers _).trans present⟩
  · rintro o' key' d' ⟨slot', property, listed⟩
    refine ⟨_, slot?_announced d property listed, ?_⟩
    split <;> exact listed
  · intro s d' listed
    rw [entries_announced] at listed
    split at listed
    · exact List.mem_of_mem_filter listed
    · exact listed
  · intro k member d' listed
    rw [entries_announced]
    split
    · exact List.mem_filter.mpr ⟨listed, held k member⟩
    · exact listed

/-- When a value has been stored, the bindings of the property wait to be told of it. -/
private theorem telling_announced (awaits : Awaits base first o key v w marks) (sound : w.Sound)
    (held : ∀ k ∈ marks, w.holds k.watcher = true)
    (gone : ∀ s : SubscriberId, s.index < base → w.holds s = false)
    (found : w.slot? o key = some slot) (tracked : slot.dep = some d)
    (news : slot.value.same v = false) :
    Telling base first o key (w.announced o key v d) (marks.map (·.after w o key v))
      ((w.entries d).filter w.holds) := by
  have changed : w.changes o key v = true := by simp [changes, found, news]
  have subscribers : (w.announced o key v d).subscribers = w.subscribers := subscribers_observeAll _ _
  have spares : Spares (fun _ => False) w (w.announced o key v d) :=
    .of_nodes (nodes_observeAll _ _)
  constructor
  · exact (linked_announced awaits.linked held d).after
  · exact Nat.le_trans awaits.pages spares.size
  · intro s listed
    obtain ⟨entry, alive⟩ := List.mem_filter.mp listed
    rcases awaits.linked.entries entry with old | ⟨k, member, rfl, present, slot', property, listed'⟩
    · rw [gone s old] at alive
      cases alive
    · obtain ⟨data, named⟩ := sound.apart property listed' found tracked
      exact ⟨_, List.mem_map_of_mem member, rfl, data, named,
        Mark.changed_after changed present data named⟩
  · intro k' member
    obtain ⟨k, before, rfl⟩ := mem_after member
    by_cases concerned : k.present = true ∧ k.data = o ∧ k.key = key
    · right
      obtain ⟨present, rfl, rfl⟩ := concerned
      obtain ⟨d', ⟨slot', property, listed'⟩, entry⟩ := awaits.linked.listed before present
      obtain rfl := Option.some.inj (property.symm.trans found)
      obtain rfl := Option.some.inj (listed'.symm.trans tracked)
      have remembers : w.watcher? k.watcher =
          some ⟨k.data, k.key, w.peek k.data k.key, k.reaction⟩ := by
        rcases awaits.order before with order | ⟨-, -, cached, -⟩
        · exact order.cached present
        · exact cached
      have value : (w.announced k.data k.key v d').peek k.data k.key = v := by
        rw [peek_of_slot (slot?_announced d' found tracked), if_pos ⟨rfl, rfl⟩]
      refine ⟨List.mem_filter.mpr ⟨entry, held k before⟩, slot'.value, ?_, ?_⟩
      · rw [peek_of_slot found] at remembers
        exact (watcher?_of_subscribers subscribers _).trans remembers
      · exact (congrArg (slot'.value.same ·) value).trans news
    · left
      have other : k.present = false ∨ ¬(k.data = o ∧ k.key = key) := by
        cases present : k.present with
        | false => exact .inl rfl
        | true => exact .inr fun same => concerned ⟨present, same⟩
      rw [Mark.after_of_other (.inr other)]
      have order := (awaits.order before).resolve_right fun exempt => concerned exempt.1
      refine inOrder_after (order.spared spares
        (watcher?_of_subscribers subscribers _) (awaits.linked.since before) (fun present => ?_)
        not_false (by simp))
      obtain ⟨d', ⟨slot', property, listed'⟩, -⟩ := awaits.linked.listed before present
      have apart : ¬(k.data = o ∧ k.key = key) := fun same => concerned ⟨present, same⟩
      rw [peek_of_slot (slot?_announced d property listed'), if_neg apart,
        peek_of_slot property]

/-- When all have been told of a value that was stored, every binding is in order again,
those of the property have changed, and nothing else has been written. -/
theorem ordered_stored (awaits : Awaits base first o key v w marks) (sound : w.Sound)
    (held : ∀ k ∈ marks, w.holds k.watcher = true)
    (gone : ∀ s : SubscriberId, s.index < base → w.holds s = false) :
    Ordered base first (w.stored o key v) (marks.map (·.after w o key v)) ∧
      Spares (Written marks o key) w (w.stored o key v) ∧
      (w.stored o key v).custody = w.custody := by
  have custody := custody_write w o key v
  cases written : w.write o key v with
  | mk w' d? =>
    rw [written] at custody
    cases d? with
    | none =>
      obtain ⟨ordered', nodes⟩ := ordered_silent (awaits.ordered written) written
      have same : w.stored o key v = w' := by simp [stored, written]
      rw [same]
      exact ⟨ordered', .of_nodes nodes, custody⟩
    | some d =>
      obtain ⟨slot, found, tracked, news, rfl⟩ := write_eq_some written
      let now := (w.modifyObject o (·.replace key v)).observe v
      have live : (now.entries d).filter now.holds = (w.entries d).filter w.holds := by
        have holds : now.holds = w.holds := funext fun s => holds_of_custody custody
        rw [holds, show now.entries d = w.entries d from entries_observe _ v d]
      have same : w.stored o key v =
          ((w.entries d).filter w.holds).foldl tell (w.announced o key v d) := by
        simp only [stored, written]
        rw [← live]
        rfl
      obtain ⟨telling, spares, -, custody'⟩ :=
        (telling_announced awaits sound held gone found tracked news).finish
      have nodes : (w.announced o key v d).nodes = w.nodes := nodes_observeAll _ _
      rw [same]
      refine ⟨telling.ordered, ?_, custody'.trans custody⟩
      refine (Spares.of_nodes nodes).trans (spares.mono ?_)
      rintro p ⟨k', member, data, named, present, part⟩
      obtain ⟨k, before, rfl⟩ := mem_after member
      exact ⟨k, before, data, named, present, part⟩

end World
end DataBinding
