import DataBinding.Proofs.Mounts

/-! Pages without circles. Where no node stands below itself, all that stands below a node lies a
bounded number of levels down. The walk that binds a page takes nodes off it and puts texts in their
place while it goes on, but nothing ever stands below a text: the walk gets one level further down at
most, and comes to its end. -/
namespace DataBinding

/-- What a node has become: a text is a text still, and below an element stand nodes that have stood
there before, or new ones. -/
inductive Node.Pruned (new : NodeId → Prop) : Node → Node → Prop where
  | text : Node.Pruned new (.text s) (.text s')
  | element {e e' : Element} (below : ∀ c ∈ e'.children, c ∈ e.children ∨ new c) :
      Node.Pruned new (.element e) (.element e')

theorem Node.Pruned.refl (new : NodeId → Prop) (x : Node) : Node.Pruned new x x := by
  cases x with
  | text s => exact .text
  | element e => exact .element fun _ => .inl

namespace World

section Descent

variable {w : World}

theorem below_of_child (stands : c ∈ w.children n) (below : w.Below c m) : w.Below n m := by
  induction below with
  | child under => exact (Below.child stands).deeper under
  | deeper _ under ih => exact ih.deeper under

theorem exists_child_of_below (below : w.Below n m) : ∃ c, c ∈ w.children n := by
  induction below with
  | child stands => exact ⟨_, stands⟩
  | deeper _ _ ih => exact ih

theorem exists_of_child (stands : c ∈ w.children n) : ∃ x, w.node? n = some x := by
  cases found : w.node? n with
  | none => simp [children, found] at stands
  | some x => exact ⟨x, rfl⟩

/-- Neither the root nor any node below it stands below itself. -/
def Acyclic (w : World) (root : NodeId) : Prop := ∀ n, n = root ∨ w.Below root n → ¬w.Below n n

theorem Acyclic.child (acyclic : w.Acyclic n) (stands : c ∈ w.children n) : w.Acyclic c := by
  rintro m (rfl | below)
  · exact acyclic m (.inr (.child stands))
  · exact acyclic m (.inr (below_of_child stands below))

/-- Where every node ranks above its children, there are no circles. -/
theorem acyclic_of_rank (rank : NodeId → Nat) (falls : ∀ n, ∀ c ∈ w.children n, rank c < rank n)
    (root : NodeId) : w.Acyclic root := by
  have lower : ∀ {n m}, w.Below n m → rank m < rank n := by
    intro n m below
    induction below with
    | child stands => exact falls n _ stands
    | deeper _ stands ih => exact Nat.lt_trans (falls _ _ stands) ih
  exact fun _ _ below => Nat.lt_irrefl _ (lower below)

/-- There are none either where every node has been made after its children. -/
theorem acyclic_of_newer (newer : ∀ i < w.nodes.size, ∀ c ∈ w.children ⟨i⟩, c.index < i)
    (root : NodeId) : w.Acyclic root := by
  refine acyclic_of_rank (·.index) (fun n c stands => ?_) root
  obtain ⟨x, found⟩ := exists_of_child stands
  exact newer n.index (Arena.lt_size_of_get? found) c stands

/-- Whatever stands below the node lies at most so many levels down. -/
def Levels (w : World) : Nat → NodeId → Prop
  | 0, n => w.children n = []
  | depth + 1, n => ∀ c ∈ w.children n, Levels w depth c

theorem levels_of_bare (bare : w.children n = []) (depth : Nat) : w.Levels depth n := by
  cases depth with
  | zero => exact bare
  | succ depth =>
    intro c stands
    rw [bare] at stands
    cases stands

/-- Different nodes that all have the given one below them. -/
private structure LieAbove (w : World) (above : List NodeId) (n : NodeId) : Prop where
  nodup : above.Nodup
  page : ∀ m ∈ above, ∃ x, w.node? m = some x
  higher : ∀ m ∈ above, w.Below m n

/-- One step down: the node is none of those above it, as it does not stand below itself. -/
private theorem LieAbove.child {above : List NodeId} (lie : LieAbove w above n)
    (acyclic : w.Acyclic n) (stands : c ∈ w.children n) : LieAbove w (n :: above) c where
  nodup := List.nodup_cons.mpr ⟨fun member => acyclic n (.inl rfl) (lie.higher n member), lie.nodup⟩
  page m member := by
    rcases List.mem_cons.mp member with rfl | member
    · exact exists_of_child stands
    · exact lie.page m member
  higher m member := by
    rcases List.mem_cons.mp member with rfl | member
    · exact .child stands
    · exact (lie.higher m member).deeper stands

private theorem levels_of_lieAbove {above : List NodeId} (lie : LieAbove w above n)
    (acyclic : w.Acyclic n) (enough : w.nodes.size ≤ depth + above.length) : w.Levels depth n := by
  induction depth generalizing n above with
  | zero =>
    refine List.eq_nil_iff_forall_not_mem.mpr fun c stands => ?_
    have next := lie.child acyclic stands
    have fewer := length_le_size next.nodup next.page
    rw [List.length_cons] at fewer
    omega
  | succ depth ih =>
    intro c stands
    refine ih (lie.child acyclic stands) (acyclic.child stands) ?_
    rw [List.length_cons]
    omega

/-- No way down is longer than there are nodes. -/
theorem Acyclic.levels (acyclic : w.Acyclic n) : w.Levels w.nodes.size n :=
  levels_of_lieAbove ⟨List.nodup_nil, by simp, by simp⟩ acyclic (by simp)

end Descent

/-- Nodes lose what stands below them, or get new texts there; no other nodes come up. -/
structure Prunes (w w' : World) : Prop where
  kept : w.node? n = some x → ∃ x', w'.node? n = some x' ∧ x.Pruned (fun c => w.node? c = none) x'
  added : w.node? n = none → w'.node? n = some x → ∃ content, x = .text content

namespace Prunes

theorem refl (w : World) : Prunes w w where
  kept {n x} found := ⟨x, found, .refl _ x⟩
  added absent found := by
    rw [absent] at found
    cases found

theorem of_nodes {w w' : World} (same : w'.nodes = w.nodes) : Prunes w w' where
  kept {n x} found := ⟨x, by simpa only [node?, same] using found, .refl _ x⟩
  added {n x} absent found := by
    simp only [node?, same] at absent found
    rw [absent] at found
    cases found

theorem absent {w w' : World} (prunes : Prunes w w') (absent : w'.node? n = none) :
    w.node? n = none := by
  cases found : w.node? n with
  | none => rfl
  | some x =>
    obtain ⟨x', there, -⟩ := prunes.kept found
    rw [absent] at there
    cases there

theorem trans {a b c : World} (first : Prunes a b) (second : Prunes b c) : Prunes a c where
  kept {n x} found := by
    obtain ⟨y, between, early⟩ := first.kept found
    obtain ⟨z, after, late⟩ := second.kept between
    refine ⟨z, after, ?_⟩
    cases early with
    | text =>
      cases late with
      | text => exact .text
    | element below =>
      cases late with
      | element below' =>
        refine .element fun m stands => ?_
        rcases below' m stands with before | new
        · exact below m before
        · exact .inr (first.absent new)
  added {n x} absent found := by
    cases between : b.node? n with
    | none => exact second.added between found
    | some y =>
      obtain ⟨content, rfl⟩ := first.added absent between
      obtain ⟨z, after, late⟩ := second.kept between
      obtain rfl := Option.some.inj (after.symm.trans found)
      cases late with
      | @text _ content' => exact ⟨content', rfl⟩

/-- What is new has nothing below it. -/
theorem bare {w w' : World} (prunes : Prunes w w') (new : w.node? n = none) : w'.children n = [] := by
  cases found : w'.node? n with
  | none => simp [children, found]
  | some x =>
    obtain ⟨content, rfl⟩ := prunes.added new found
    simp [children, found, Node.children]

theorem old {w w' : World} (prunes : Prunes w w') (stands : c ∈ w'.children n) :
    w.node? n ≠ none := by
  intro new
  rw [prunes.bare new] at stands
  cases stands

theorem child {w w' : World} (prunes : Prunes w w') (stands : c ∈ w'.children n) :
    c ∈ w.children n ∨ w.node? c = none := by
  cases found : w.node? n with
  | none => exact absurd found (prunes.old stands)
  | some x =>
    obtain ⟨x', there, pruned⟩ := prunes.kept found
    rw [children, there] at stands
    rw [children, found]
    cases pruned with
    | text => cases stands
    | element below => exact below c stands

/-- Where only one node changes, nothing else needs to be looked at. -/
theorem of_touches {w w' : World} (touches : Touches n w w')
    (absent : w.node? n = none → w'.node? n = none)
    (here : ∀ {x}, w.node? n = some x →
      ∃ x', w'.node? n = some x' ∧ x.Pruned (fun c => w.node? c = none) x') : Prunes w w' where
  kept {m x} found := by
    by_cases same : m = n
    · subst same
      exact here found
    · exact ⟨x, touches.other same found, .refl _ x⟩
  added {m x} new found := by
    by_cases same : m = n
    · subst same
      rw [absent new] at found
      cases found
    · exact touches.added same new found

theorem setText (w : World) (n : NodeId) (content : String) : Prunes w (w.setText n content) := by
  refine of_touches (touches_setText w n content) (fun absent => ?_) fun {x} found => ?_
  · simp [World.setText, absent]
  · cases x with
    | text s => exact ⟨_, node?_setText_text content found, .text⟩
    | element e =>
      refine ⟨_, node?_setText_element content found, .element fun c stands => .inr ?_⟩
      by_cases empty : content = ""
      · simp [empty] at stands
      · obtain rfl : c = ⟨w.nodes.size⟩ := by simpa [empty] using stands
        simp [node?, Arena.get?, Arena.size]

/-- A change that leaves in place what stands below an element. -/
theorem onElement (w : World) (n : NodeId) {f : Element → Element}
    (same : ∀ e, (f e).children = e.children) : Prunes w (w.modifyNode n (·.onElement f)) := by
  refine of_touches (touches_modifyNode w n _) (fun absent => ?_) fun {x} found => ?_
  · simp [node?_modifyNode, absent]
  · refine ⟨x.onElement f, by simp [node?_modifyNode, found], ?_⟩
    cases x with
    | text s => exact .text
    | element e => exact .element fun c stands => .inl (same e ▸ stands)

theorem binding (data : ObjectId) (n : NodeId) : BindingKeeps data n fun a _ b => Prunes a b where
  nil := refl
  append := trans
  read w key := of_nodes (nodes_read w data key)
  setText w content := setText w n content
  setControlValue w _ := onElement w n fun _ => rfl
  writeBack w key := onElement w n (f := fun e =>
    { e with listeners := e.listeners ++ [.writeBack data key] }) fun _ => rfl
  watch w key reaction _ := of_nodes (nodes_watch w data key reaction)

theorem bindWithin {w : World} (ran : World.bindWithin data depth w n = some result) :
    Prunes w result.1 :=
  BindingKeeps.bindWithin (binding data) ran

/-- What stands below a node stood there before, or is new and has nothing below itself. -/
theorem below {w w' : World} (prunes : Prunes w w') (below : w'.Below n m) :
    w.Below n m ∨ w.node? m = none := by
  induction below with
  | child stands => exact (prunes.child stands).imp_left .child
  | @deeper k m _ stands ih =>
    have before : w.Below n k := ih.resolve_right (prunes.old stands)
    exact (prunes.child stands).imp_left before.deeper

/-- No circle comes up. -/
theorem circle {w w' : World} (prunes : Prunes w w') (below : w'.Below n n) : w.Below n n := by
  obtain ⟨c, stands⟩ := exists_child_of_below below
  exact (prunes.below below).resolve_right (prunes.old stands)

theorem acyclic {w w' : World} (prunes : Prunes w w') (acyclic : w.Acyclic root) : w'.Acyclic root := by
  intro n reached below
  have circle := prunes.circle below
  rcases reached with rfl | reached
  · exact acyclic n (.inl rfl) circle
  · obtain ⟨c, stands⟩ := exists_child_of_below below
    exact acyclic n (.inr ((prunes.below reached).resolve_right (prunes.old stands))) circle

/-- There is one level more at most. -/
theorem levels {w w' : World} (prunes : Prunes w w') (levels : w.Levels depth n) :
    w'.Levels (depth + 1) n := by
  induction depth generalizing n with
  | zero =>
    intro c stands
    have new := (prunes.child stands).resolve_left fun old => by
      rw [show w.children n = [] from levels] at old
      cases old
    exact prunes.bare new
  | succ depth ih =>
    intro c stands
    rcases prunes.child stands with old | new
    · exact ih (levels c old)
    · exact levels_of_bare (prunes.bare new) _

end Prunes

section Ending

variable {α β : Type} {xs : List α} {f g : β → α → Option β}

/-- A fold whose steps all succeed, as long as something holds that they keep, succeeds. -/
private theorem foldlM_ends {P : β → Prop}
    (each : ∀ b, P b → ∀ x ∈ xs, ∃ b', f b x = some b' ∧ P b') (b : β) (holds : P b) :
    ∃ b', xs.foldlM f b = some b' := by
  induction xs generalizing b with
  | nil => exact ⟨b, rfl⟩
  | cons x rest ih =>
    obtain ⟨next, here, kept⟩ := each b holds x List.mem_cons_self
    obtain ⟨last, later⟩ :=
      ih (fun b holds y member => each b holds y (List.mem_cons_of_mem x member)) next kept
    exact ⟨last, by rw [List.foldlM_cons, here]; exact later⟩

private theorem foldlM_mono (each : ∀ b x b', f b x = some b' → g b x = some b') (b : β)
    (ran : xs.foldlM f b = some last) : xs.foldlM g b = some last := by
  induction xs generalizing b with
  | nil => exact ran
  | cons x rest ih =>
    rw [List.foldlM_cons] at ran ⊢
    obtain ⟨next, here, later⟩ := Option.bind_eq_some_iff.mp ran
    exact Option.bind_eq_some_iff.mpr ⟨next, each b x next here, ih next later⟩

end Ending

/-- A walk that ends within a bound does the same within any larger one. -/
theorem bindWithin_mono {w : World} (more : depth ≤ depth')
    (ran : bindWithin data depth w n = some result) : bindWithin data depth' w n = some result := by
  induction depth generalizing depth' w n result with
  | zero => cases ran
  | succ depth ih =>
    obtain ⟨further, rfl⟩ : ∃ k, depth' = k + 1 := ⟨depth' - 1, by omega⟩
    rw [bindWithin_succ] at ran ⊢
    refine foldlM_mono (fun state child next first => ?_) _ ran
    simp only [bindChild] at first ⊢
    split
    · rename_i bare
      rwa [if_pos bare] at first
    · rename_i filled
      rw [if_neg filled] at first
      obtain ⟨below, inner, same⟩ := Option.map_eq_some_iff.mp first
      exact Option.map_eq_some_iff.mpr ⟨below, ih (by omega) inner, same⟩

/-- A walk over what stands below a node ends if those below its children do. A child that has come
up during the walk has nothing below it. -/
private theorem bindWithin_ends_of_children {w a : World} (prunes : Prunes w a)
    (further : ∀ {b c}, Prunes w b → c ∈ w.children n → ∃ result, bindWithin data depth b c = some result) :
    ∃ result, bindWithin data (depth + 1) a n = some result := by
  rw [bindWithin_succ]
  refine foldlM_ends (P := fun state => Prunes w state.1) (fun state pruned c stands => ?_) _ prunes
  have bound : Prunes w (state.1.bindNode data c).1 := pruned.trans ((Prunes.binding data c).bindNode _)
  simp only [bindChild]
  split
  · exact ⟨_, rfl, bound⟩
  · rename_i filled
    have old : c ∈ w.children n := (prunes.child stands).resolve_right fun new => by
      rw [bound.bare new] at filled
      exact filled rfl
    obtain ⟨below, inner⟩ := further bound old
    have pruned' := bound.trans (.bindWithin inner)
    exact ⟨_, Option.map_eq_some_iff.mpr ⟨below, inner, rfl⟩, pruned'⟩

/-- The walk goes one level further down than the page did, however it has changed meanwhile. -/
theorem bindWithin_ends {w a : World} (levels : w.Levels depth n) (prunes : Prunes w a) :
    ∃ result, bindWithin data (depth + 1) a n = some result := by
  induction depth generalizing a n with
  | zero =>
    refine bindWithin_ends_of_children prunes fun _ stands => ?_
    rw [show w.children n = [] from levels] at stands
    cases stands
  | succ depth ih => exact bindWithin_ends_of_children prunes fun bound stands => ih (levels _ stands) bound

/-- The walk ends, whatever bound above the number of nodes is put on it. -/
theorem Acyclic.bind_ends {w : World} (acyclic : w.Acyclic root) (data : ObjectId) :
    ∃ result, w.bind data root = some result ∧
      ∀ depth, w.nodes.size < depth → bindWithin data depth w root = some result := by
  obtain ⟨result, ends⟩ : ∃ result, bindWithin data _ w root = some result :=
    bindWithin_ends acyclic.levels (.refl w)
  have enough : ∀ depth, w.nodes.size < depth → bindWithin data depth w root = some result :=
    fun _ more => bindWithin_mono more ends
  refine ⟨result, enough w.walkBound ?_, enough⟩
  rw [walkBound]
  omega

/-- Binding a page without circles comes to an end, and does so whatever bound above the number of
nodes is put on how deep it goes. It brings no circle into the page or anywhere else, and makes the
page one level deeper at most. -/
theorem template_walk_ends {w : World} (held : w.binder? b = some binder) (acyclic : w.Acyclic root) :
    ∃ w', w.perform (.bind b root) = some (w', .done) ∧
      (∃ a watchers, (∀ depth, w.nodes.size < depth →
        bindWithin binder.data depth w root = some (a, watchers)) ∧ a.nodes = w'.nodes) ∧
      w'.Acyclic root ∧ (∀ n, w'.Below n n → w.Below n n) ∧
      ∀ depth, w.Levels depth root → w'.Levels (depth + 1) root := by
  obtain ⟨⟨a, watchers⟩, bound, enough⟩ := acyclic.bind_ends binder.data
  have pruned : Prunes w a := .bindWithin bound
  let grown : Binder := { binder with watchers := binder.watchers ++ watchers }
  let w' : World := { a with binders := a.binders.modify b.index fun _ => some grown }
  have prunes : Prunes w w' := pruned.trans (.of_nodes rfl)
  refine ⟨w', ?_, ⟨a, watchers, enough, rfl⟩, prunes.acyclic acyclic, fun _ => prunes.circle,
    fun _ => prunes.levels⟩
  simp only [perform, held, bound]
  rfl

end World

namespace Machine

/-- A text that stands in one paragraph, which stands twice on the page, and then on the page itself,
and that gets a new interpolation each time that it is bound; and a paragraph that loses it. -/
def entangling : Program Unit :=
  .call (.act (.newObject [("a", .string "<\x7b\x7bb\x7d\x7d>"), ("b", .string "[\x7b\x7ba\x7d\x7d]")])) fun _ =>
  .call (.act (.observe (.object ⟨0⟩))) fun _ =>
  .call (.act (.newBinder ⟨0⟩)) fun _ =>
  .call (.act (.newText "\x7b\x7b a \x7d\x7d")) fun _ =>
  .call (.act (.newElement "p")) fun _ =>
  .call (.act (.appendChild ⟨1⟩ ⟨0⟩)) fun _ =>
  .call (.act (.newElement "p")) fun _ =>
  .call (.act (.setAttribute ⟨2⟩ "v-text" "a")) fun _ =>
  .call (.act (.appendChild ⟨2⟩ ⟨0⟩)) fun _ =>
  .call (.act (.newElement "div")) fun _ =>
  .call (.act (.appendChild ⟨3⟩ ⟨1⟩)) fun _ =>
  .call (.act (.appendChild ⟨3⟩ ⟨2⟩)) fun _ =>
  .call (.act (.appendChild ⟨3⟩ ⟨1⟩)) fun _ =>
  .call (.act (.appendChild ⟨3⟩ ⟨0⟩)) fun _ => .done

def entangledMachine : Machine Unit := run 15 (start { host := () } entangling)

/-- The text is bound three times, and the walk ends. -/
theorem entangled_walk_ends : entangledMachine.world.binder? ⟨0⟩ = some ⟨⟨0⟩, []⟩ ∧
    entangledMachine.world.Acyclic ⟨3⟩ ∧ ∃ w',
    entangledMachine.world.perform (.bind ⟨0⟩ ⟨3⟩) = some (w', .done) ∧ w'.Acyclic ⟨3⟩ ∧
      w'.node? ⟨0⟩ = some (.text "<[<\x7b\x7bb\x7d\x7d>]>") ∧ w'.children ⟨2⟩ = [⟨4⟩] ∧
      w'.node? ⟨4⟩ = some (.text "<[\x7b\x7ba\x7d\x7d]>") := by
  have acyclic : entangledMachine.world.Acyclic ⟨3⟩ := World.acyclic_of_newer (by decide +kernel) ⟨3⟩
  have held : entangledMachine.world.binder? ⟨0⟩ = some ⟨⟨0⟩, []⟩ := by decide +kernel
  obtain ⟨w', performed, -, still, -⟩ := World.template_walk_ends held acyclic
  have shown : (entangledMachine.world.perform (.bind ⟨0⟩ ⟨3⟩)).map (fun r =>
      (r.1.node? ⟨0⟩, r.1.children ⟨2⟩, r.1.node? ⟨4⟩)) =
      some (some (.text "<[<\x7b\x7bb\x7d\x7d>]>"), [⟨4⟩],
        some (.text "<[\x7b\x7ba\x7d\x7d]>")) := by
    decide +kernel
  rw [performed, Option.map_some, Option.some.injEq] at shown
  simp only [Prod.mk.injEq] at shown
  exact ⟨held, acyclic, w', performed, still, shown⟩

end Machine
end DataBinding
