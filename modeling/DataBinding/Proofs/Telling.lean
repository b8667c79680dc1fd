import DataBinding.Proofs.Marks

/-! Telling watchers that write into pages. Each that is told puts its binding right and
disturbs no other one, so when all have been told the page is in order again. -/
namespace DataBinding

namespace World

/-- Tells a watcher of a change. If it does not know the value, it remembers it and writes
it into the page. -/
def tell (w : World) (s : SubscriberId) : World :=
  match w.watcher? s with
  | none => w
  | some x =>
    if x.cached.same (w.peek x.root x.key) then w
    else (w.remember s (w.peek x.root x.key)).react x.reaction (w.peek x.root x.key)

theorem tell_known {w : World} (found : w.watcher? s = some x)
    (knows : x.cached.same (w.peek x.root x.key) = true) : w.tell s = w := by
  simp [tell, found, knows]

theorem tell_news {w : World} (found : w.watcher? s = some x)
    (news : x.cached.same (w.peek x.root x.key) = false) :
    w.tell s = (w.remember s (w.peek x.root x.key)).react x.reaction (w.peek x.root x.key) := by
  simp [tell, found, news]

/-- Telling changes neither objects nor dependency lists nor what is held. -/
theorem tell_same (w : World) (s : SubscriberId) :
    (w.tell s).objects = w.objects ∧ (w.tell s).deps = w.deps ∧
      (w.tell s).subscribers.size = w.subscribers.size ∧ (w.tell s).custody = w.custody := by
  unfold tell
  split
  · exact ⟨rfl, rfl, rfl, rfl⟩
  · rename_i x _
    split
    · exact ⟨rfl, rfl, rfl, rfl⟩
    · obtain ⟨objects, deps, subscribers⟩ := react_same
        (w.remember s (w.peek x.root x.key)) x.reaction (w.peek x.root x.key)
      refine ⟨objects, deps, ?_, custody_react _ _ _⟩
      rw [subscribers]
      simp [remember]

/-- Only the watcher that is told may remember something else. -/
theorem watcher?_tell (w : World) (s t : SubscriberId) :
    (w.tell s).watcher? t = w.watcher? t ∨ s = t ∧ ∃ x v, w.watcher? t = some x ∧
      (w.tell s).watcher? t = some { x with cached := v } := by
  cases found : w.watcher? s with
  | none => exact .inl (by simp [tell, found])
  | some x =>
    cases same : x.cached.same (w.peek x.root x.key) with
    | true => exact .inl (by rw [tell_known found same])
    | false =>
      rw [tell_news found same, watcher?_of_subscribers (react_same _ _ _).2.2, watcher?_remember]
      split
      · rename_i told
        subst told
        exact .inr ⟨rfl, x, _, found, by rw [found]; rfl⟩
      · exact .inl rfl

theorem node?_setText_fresh {w : World} (found : w.node? n = some (.element e))
    (filled : content ≠ "") : (w.setText n content).node? ⟨w.nodes.size⟩ = some (.text content) := by
  have apart : n ≠ ⟨w.nodes.size⟩ := by
    rintro rfl
    simp [node?, Arena.get?, Arena.size] at found
  unfold setText
  simp only [found, if_neg filled]
  refine (node?_modifyNode _ n _ _).trans ?_
  rw [if_neg apart, node?_newNode, if_pos rfl]

/-- Setting the text of an element leaves it alone below the element. -/
theorem showsAlone_setText {w : World} (found : w.node? n = some (.element e)) (content : String) :
    (w.setText n content).ShowsAlone (if content = "" then [] else [⟨w.nodes.size⟩]) content := by
  unfold ShowsAlone
  by_cases empty : content = ""
  · rw [if_pos empty, if_pos empty]
  · rw [if_neg empty, if_neg empty]
    exact ⟨_, rfl, node?_setText_fresh found empty⟩

end World

/-- A watcher that has just reacted has put its binding in order. -/
theorem Mark.inOrder_react {k : Mark} {w : World} (linked : w.Linked base marks) (member : k ∈ marks)
    (pages : first ≤ w.nodes.size) (changed : k.changed = true) :
    k.InOrder first ((w.remember k.watcher (w.peek k.data k.key)).react k.reaction
      (w.peek k.data k.key)) marks := by
  obtain ⟨-, cached, watching⟩ := linked.watcher member
  obtain ⟨x, found, fits⟩ := linked.fits member
  let v := w.peek k.data k.key
  let told := w.remember k.watcher v
  change k.InOrder first (told.react k.reaction v) marks
  obtain ⟨objects, -, subscribers⟩ := World.react_same told k.reaction v
  have value : (told.react k.reaction v).peek k.data k.key = v :=
    World.peek_of_objects (w := w) objects k.data k.key
  have before : told.node? k.node = some x := found
  constructor
  · intro _
    have remembers : told.watcher? k.watcher = some ⟨k.data, k.key, v, k.reaction⟩ := by
      rw [World.watcher?_remember, if_pos rfl, watching]
      rfl
    rw [value]
    exact (World.watcher?_of_subscribers subscribers _).trans remembers
  · unfold Mark.Shows
    rw [value]
    cases role : k.role with
    | label initial =>
      cases x with
      | element e => simp [role, Role.Fits] at fits
      | text s =>
        have reacts : told.react k.reaction v = told.setText k.node v.textContent := by
          simp [Mark.reaction, role, Role.reaction, World.react]
        simpa [reacts, changed] using World.node?_setText_text v.textContent before
    | text =>
      cases x with
      | text s => simp [role, Role.Fits] at fits
      | element e =>
        have reacts : told.react k.reaction v = told.setText k.node v.textContent := by
          simp [Mark.reaction, role, Role.reaction, World.react]
        rw [reacts]
        exact ⟨_, World.node?_setText_element v.textContent before,
          fun _ => World.showsAlone_setText before v.textContent⟩
    | control =>
      cases x with
      | text s => simp [role, Role.Fits] at fits
      | element e =>
        have reacts : told.react k.reaction v = told.setControlValue k.node v.formValue := by
          simp [Mark.reaction, role, Role.reaction, World.react]
        rw [reacts]
        exact ⟨_, World.node?_setControlValue_element v.formValue before, fun _ => rfl⟩
  · intro g role _ below
    cases x with
    | text s => simp [role, Role.Fits] at fits
    | element e =>
      have reacts : told.react k.reaction v = told.setText k.node v.textContent := by
        simp [Mark.reaction, role, Role.reaction, World.react]
      have only : g = ⟨told.nodes.size⟩ := by
        rw [reacts, World.children_of_element (World.node?_setText_element _ before)] at below
        simp only at below
        split at below
        · cases below
        · exact List.mem_singleton.mp below
      refine ⟨only ▸ pages, fun l other same => ?_⟩
      obtain ⟨y, present, -⟩ := linked.fits other
      rw [same, only] at present
      have inside := Arena.lt_size_of_get? present
      exact Nat.lt_irrefl _ inside

namespace World

/-- While the watchers of a property are being told, each binding is in order or its watcher
still has to be told. -/
structure Telling (base first : Nat) (o : ObjectId) (key : String) (w : World) (marks : List Mark)
    (rest : List SubscriberId) : Prop where
  linked : Linked base w marks
  pages : first ≤ w.nodes.size
  own : s ∈ rest → ∃ k ∈ marks, k.watcher = s ∧ k.data = o ∧ k.key = key ∧ k.changed = true
  todo : k ∈ marks → k.InOrder first w marks ∨ k.watcher ∈ rest ∧
    ∃ cached, w.watcher? k.watcher = some ⟨k.data, k.key, cached, k.reaction⟩ ∧
      cached.same (w.peek k.data k.key) = false

/-- What the bindings of a property write. -/
def Written (marks : List Mark) (o : ObjectId) (key : String) (p : Part) : Prop :=
  ∃ k ∈ marks, k.data = o ∧ k.key = key ∧ k.present = true ∧ k.part = p

namespace Telling

variable {base first : Nat} {o : ObjectId} {key : String} {w : World} {marks : List Mark}

/-- Who knows the value already is in order. -/
private theorem known (telling : Telling base first o key w marks (s :: rest))
    (found : w.watcher? s = some x) (knows : x.cached.same (w.peek x.root x.key) = true) :
    Telling base first o key w marks rest where
  linked := telling.linked
  pages := telling.pages
  own later := telling.own (List.mem_cons_of_mem _ later)
  todo {k} member := by
    rcases telling.todo member with order | ⟨waits, cached, watching, news⟩
    · exact .inl order
    · rcases List.mem_cons.mp waits with same | later
      · rw [same, found] at watching
        obtain rfl := Option.some.inj watching
        rw [knows] at news
        cases news
      · exact .inr ⟨later, cached, watching, news⟩

/-- Telling the next watcher writes the part of its binding at most. -/
private theorem spares_part (telling : Telling base first o key w marks (k.watcher :: rest))
    (member : k ∈ marks) : Spares (· = k.part) w (w.tell k.watcher) := by
  obtain ⟨-, cached, watching⟩ := telling.linked.watcher member
  cases same : cached.same (w.peek k.data k.key) with
  | true =>
    rw [tell_known watching same]
    exact .refl _ w
  | false =>
    rw [tell_news watching same]
    have remembers : Spares (· = k.part) w (w.remember k.watcher (w.peek k.data k.key)) :=
      .of_nodes rfl
    refine remembers.trans ((spares_react _ _ _).mono ?_)
    intro p writes
    exact Option.some.inj (writes.symm.trans (Role.part?_reaction k.role k.node))

theorem spares (telling : Telling base first o key w marks (s :: rest)) :
    Spares (Written marks o key) w (w.tell s) := by
  obtain ⟨k, member, rfl, rfl, rfl, changed⟩ := telling.own List.mem_cons_self
  apply (telling.spares_part member).mono
  rintro p rfl
  exact ⟨k, member, rfl, rfl, telling.linked.since member changed, rfl⟩

private theorem linked_tell (linked : Linked base w marks) (spares : Spares touched w (w.tell s)) :
    Linked base (w.tell s) marks := by
  obtain ⟨objects, deps, size, -⟩ := tell_same w s
  apply linked.of_same spares
  · exact Nat.le_of_eq size.symm
  · intro k _ x found
    rcases watcher?_tell w s k.watcher with same | ⟨-, y, v, present, after⟩
    · exact ⟨x.cached, same.trans found⟩
    · obtain rfl := Option.some.inj (present.symm.trans found)
      exact ⟨v, after⟩
  · rintro o key d ⟨slot, found, tracked⟩
    exact ⟨slot, (slot?_of_objects objects o key).trans found, tracked⟩
  · intro t d listed
    exact entries_of_deps deps d ▸ listed
  · intro k _ d listed
    exact (entries_of_deps deps d).symm ▸ listed

/-- The next watcher is told, and its binding is in order. -/
theorem told (telling : Telling base first o key w marks (s :: rest)) :
    Telling base first o key (w.tell s) marks rest := by
  obtain ⟨k, member, rfl, rfl, rfl, changed⟩ := telling.own List.mem_cons_self
  obtain ⟨-, cached, watching⟩ := telling.linked.watcher member
  cases same : cached.same (w.peek k.data k.key) with
  | true =>
    rw [tell_known watching same]
    exact telling.known watching same
  | false =>
    have spares := telling.spares_part member
    obtain ⟨objects, -, -, -⟩ := tell_same w k.watcher
    refine ⟨linked_tell telling.linked spares, Nat.le_trans telling.pages spares.size,
      fun later => telling.own (List.mem_cons_of_mem _ later), fun {l} other => ?_⟩
    by_cases here : l = k
    · subst here
      rw [tell_news watching same]
      exact .inl (Mark.inOrder_react telling.linked member telling.pages changed)
    · have apart : l.watcher ≠ k.watcher := fun eq =>
        here (telling.linked.eq_of_watcher other member eq)
      have still : (w.tell k.watcher).watcher? l.watcher = w.watcher? l.watcher :=
        (watcher?_tell w k.watcher l.watcher).resolve_right fun told => apart told.1.symm
      have value := peek_of_objects objects l.data l.key
      rcases telling.todo other with order | ⟨waits, cached', watching', news⟩
      · left
        refine order.spared spares still (telling.linked.since other) (fun _ => value) ?_ ?_
        · exact fun part => here (telling.linked.apart other member part)
        · intro role changed' g below
          have away := (order.own role changed' below).2 k member
          refine ⟨?_, ?_, fun part => (k.part_ne_listeners g) part.symm⟩
          · exact fun part => away (Mark.node_of_part (.inl part.symm))
          · exact fun part => away (Mark.node_of_part (.inr part.symm))
      · right
        refine ⟨(List.mem_cons.mp waits).resolve_left apart, cached', ?_, ?_⟩
        · exact still.trans watching'
        · rw [value]
          exact news

/-- When all have been told, the page is in order, and nothing but the bindings of the
property has been written. -/
theorem finish (telling : Telling base first o key w marks rest) :
    Telling base first o key (rest.foldl tell w) marks [] ∧
      Spares (Written marks o key) w (rest.foldl tell w) ∧
      (rest.foldl tell w).objects = w.objects ∧ (rest.foldl tell w).custody = w.custody := by
  induction rest generalizing w with
  | nil => exact ⟨telling, .refl _ w, rfl, rfl⟩
  | cons s rest ih =>
    obtain ⟨objects, -, -, custody⟩ := tell_same w s
    obtain ⟨done, spares, objects', custody'⟩ := ih telling.told
    exact ⟨done, telling.spares.trans spares, objects'.trans objects, custody'.trans custody⟩

end Telling

/-- Every binding is in order. -/
structure Ordered (base first : Nat) (w : World) (marks : List Mark) : Prop where
  linked : Linked base w marks
  pages : first ≤ w.nodes.size
  order : k ∈ marks → k.InOrder first w marks

theorem Telling.ordered (telling : Telling base first o key w marks []) :
    Ordered base first w marks where
  linked := telling.linked
  pages := telling.pages
  order member := (telling.todo member).resolve_right fun waits => nomatch waits.1

end World
end DataBinding
