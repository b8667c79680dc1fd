import DataBinding.Proofs.Holding

/-! The nodes that a walk visits. Binding one node changes no other node, and the texts that
it adds have nothing below them; so when the walk ends, whatever then stands below the root
has been visited. -/
namespace DataBinding.World

/-- Only the one node changes; other nodes that are added are texts. -/
structure Touches (n : NodeId) (w w' : World) : Prop where
  other : x ≠ n → w.node? x = some y → w'.node? x = some y
  added : x ≠ n → w.node? x = none → w'.node? x = some y → ∃ content, y = .text content

namespace Touches

theorem of_nodes {w w' : World} (same : w'.nodes = w.nodes) : Touches n w w' where
  other _ found := by simpa only [node?, same] using found
  added _ absent found := by
    simp only [node?, same] at absent found
    rw [absent] at found
    cases found

theorem refl (n : NodeId) (w : World) : Touches n w w := of_nodes rfl

theorem trans {a b c : World} (first : Touches n a b) (second : Touches n b c) : Touches n a c where
  other apart found := second.other apart (first.other apart found)
  added {x y} apart absent found := by
    cases between : b.node? x with
    | none => exact second.added apart between found
    | some z =>
      obtain ⟨content, rfl⟩ := first.added apart absent between
      have same := second.other apart between
      exact ⟨content, Option.some.inj (found.symm.trans same)⟩

theorem children {w w' : World} (touches : Touches n w w') (apart : x ≠ n) :
    w'.children x = w.children x := by
  cases before : w.node? x with
  | some y => simp [World.children, before, touches.other apart before]
  | none =>
    cases after : w'.node? x with
    | none => simp [World.children, before, after]
    | some y =>
      obtain ⟨content, rfl⟩ := touches.added apart before after
      simp [World.children, before, after, Node.children]

end Touches

theorem node?_modifyNode (w : World) (n x : NodeId) (f : Node → Node) :
    (w.modifyNode n f).node? x = if n = x then (w.node? x).map f else w.node? x := by
  by_cases same : n = x
  · subst same
    simp [node?, modifyNode, Arena.get?_modify]
  · have apart : n.index ≠ x.index := fun eq => same (by cases n; cases x; simp_all)
    simp [node?, modifyNode, Arena.get?_modify, same, apart]

theorem node?_newNode (w : World) (added : Node) (x : NodeId) :
    (w.newNode added).1.node? x = if x = ⟨w.nodes.size⟩ then some added else w.node? x := by
  by_cases same : x = ⟨w.nodes.size⟩
  · subst same
    simp [node?, newNode, Arena.get?_push]
  · have apart : x.index ≠ w.nodes.size := fun eq => same (by cases x; simp_all)
    simp [node?, newNode, Arena.get?_push, same, apart]

theorem touches_modifyNode (w : World) (n : NodeId) (f : Node → Node) :
    Touches n w (w.modifyNode n f) where
  other {x y} apart found := by
    rw [node?_modifyNode, if_neg (Ne.symm apart)]
    exact found
  added {x y} apart absent found := by
    rw [node?_modifyNode, if_neg (Ne.symm apart), absent] at found
    cases found

theorem touches_setText (w : World) (n : NodeId) (content : String) :
    Touches n w (w.setText n content) := by
  have fresh : Touches n w (w.newNode (.text content)).1 := by
    refine ⟨fun {x y} apart found => ?_, fun {x y} apart absent found => ?_⟩
    · rw [node?_newNode, if_neg]
      · exact found
      · rintro rfl
        simp [node?, Arena.get?, Arena.size] at found
    · rw [node?_newNode] at found
      split at found
      · exact ⟨content, (Option.some.inj found).symm⟩
      · rw [absent] at found
        cases found
  unfold setText
  split
  · exact .refl n w
  · exact touches_modifyNode w n _
  · split
    · exact touches_modifyNode w n _
    · exact fresh.trans (touches_modifyNode _ n _)

@[simp] theorem nodes_read (w : World) (o : ObjectId) (key : String) :
    (w.read o key).1.nodes = w.nodes := by
  unfold read depend
  split
  · split <;> rfl
  · rfl

@[simp] theorem nodes_watch (w : World) (root : ObjectId) (key : String) (reaction : Reaction) :
    (w.watch root key reaction).1.nodes = w.nodes := by
  cases tracked : (w.properties root).dep? key with
  | none => rw [watch_of_plain reaction tracked]; rfl
  | some d => rw [watch_of_dep reaction tracked]; rfl

/-- Nodes are never removed. -/
theorem Moves.lasts {w w' : World} (moves : Moves w w') (found : w.node? n = some x) :
    ∃ x', w'.node? n = some x' := by
  induction moves with
  | refl => exact ⟨x, found⟩
  | tail _ move ih =>
    obtain ⟨y, between⟩ := ih
    cases move with
    | node a _ =>
      rw [node?_newNode]
      split
      · exact ⟨_, rfl⟩
      · exact ⟨y, between⟩
    | edit a m _ =>
      rw [node?_modifyNode, between]
      split <;> exact ⟨_, rfl⟩
    | watch a root key reaction => exact ⟨y, by rw [node?, nodes_watch]; exact between⟩
    | _ => exact ⟨y, between⟩

theorem touches_binding (data : ObjectId) (n : NodeId) :
    BindingKeeps data n fun a _ b => Touches n a b where
  nil := .refl n
  append := .trans
  read w key := .of_nodes (nodes_read w data key)
  setText w content := touches_setText w n content
  setControlValue w _ := touches_modifyNode w n _
  writeBack w _ := touches_modifyNode w n _
  watch w key reaction _ := .of_nodes (nodes_watch w data key reaction)

theorem touches_bindNode (w : World) (data : ObjectId) (n : NodeId) :
    Touches n w (w.bindNode data n).1 :=
  (touches_binding data n).bindNode w

/-- Binds nodes one after the other, without what stands below them. -/
def bindAll (w : World) (data : ObjectId) : List NodeId → World × List SubscriberId
  | [] => (w, [])
  | n :: rest =>
    let (w, own) := w.bindNode data n
    let (w, more) := w.bindAll data rest
    (w, own ++ more)

theorem bindAll_append (w : World) (data : ObjectId) (first second : List NodeId) :
    w.bindAll data (first ++ second) =
      (((w.bindAll data first).1.bindAll data second).1,
        (w.bindAll data first).2 ++ ((w.bindAll data first).1.bindAll data second).2) := by
  induction first generalizing w with
  | nil => rfl
  | cons n rest ih => simp [bindAll, ih, List.append_assoc]

/-- Nodes that are not bound keep what stands below them. -/
theorem children_bindAll (w : World) (data : ObjectId) (ns : List NodeId) (absent : x ∉ ns) :
    (w.bindAll data ns).1.children x = w.children x := by
  induction ns generalizing w with
  | nil => rfl
  | cons n rest ih =>
    have apart : x ≠ n := fun same => absent (by simp [same])
    have later : x ∉ rest := fun member => absent (List.mem_cons_of_mem _ member)
    exact (ih _ later).trans ((touches_bindNode w data n).children apart)

/-- The nodes were bound one after the other, among them those to begin with and all that
in the end stands below one of them. -/
structure Visits (data : ObjectId) (w : World) (roots : List NodeId) (watchers : List SubscriberId)
    (w' : World) (visited : List NodeId) : Prop where
  bound : w.bindAll data visited = (w', watchers)
  begins : ∀ n ∈ roots, n ∈ visited
  closed : ∀ n ∈ visited, ∀ child ∈ w'.children n, child ∈ visited

namespace Visits

theorem nil (data : ObjectId) (w : World) : Visits data w [] [] w [] := ⟨rfl, by simp, by simp⟩

theorem append {a b c : World} (first : Visits data a ns xs b vs) (second : Visits data b ms ys c us) :
    Visits data a (ns ++ ms) (xs ++ ys) c (vs ++ us) where
  bound := by rw [bindAll_append, first.bound, second.bound]
  begins n member := by
    rcases List.mem_append.mp member with early | late
    · exact List.mem_append_left _ (first.begins n early)
    · exact List.mem_append_right _ (second.begins n late)
  closed n member child below := by
    by_cases again : n ∈ us
    · exact List.mem_append_right _ (second.closed n again child below)
    · -- What was visited only at first has kept its children since.
      have once : n ∈ vs := (List.mem_append.mp member).resolve_right again
      have kept := children_bindAll b data us again
      rw [second.bound] at kept
      exact List.mem_append_left _ (first.closed n once child (kept ▸ below))

/-- A node is visited before what stands below it. -/
theorem node {w w' : World} (below : Visits data (w.bindNode data n).1
      ((w.bindNode data n).1.children n) ys w' us) :
    Visits data w [n] ((w.bindNode data n).2 ++ ys) w' (n :: us) where
  bound := by simp [bindAll, below.bound]
  begins x member := by simp_all
  closed x member child under := by
    by_cases again : x ∈ us
    · exact List.mem_cons_of_mem _ (below.closed x again child under)
    · obtain rfl : x = n := (List.mem_cons.mp member).resolve_right again
      have kept := children_bindAll (w.bindNode data x).1 data us again
      rw [below.bound] at kept
      exact List.mem_cons_of_mem _ (below.begins child (kept ▸ under))

end Visits

private theorem fold_visits {data : ObjectId} {depth : Nat}
    (each : ∀ w n w' watchers, bindWithin data depth w n = some (w', watchers) →
      ∃ visited, Visits data w (w.children n) watchers w' visited)
    (ns : List NodeId) (state : World × List SubscriberId)
    (ran : ns.foldlM (bindChild data depth) state = some final) :
    ∃ own visited, final.2 = state.2 ++ own ∧ Visits data state.1 ns own final.1 visited := by
  induction ns generalizing state with
  | nil =>
    obtain rfl : state = final := by simpa using ran
    exact ⟨[], [], by simp, .nil data state.1⟩
  | cons n rest ih =>
    rw [List.foldlM_cons] at ran
    obtain ⟨next, first, later⟩ := Option.bind_eq_some_iff.mp ran
    obtain ⟨more, visitedLater, collected, visitsLater⟩ := ih next later
    have here : ∃ own visited, next.2 = state.2 ++ own ∧ Visits data state.1 [n] own next.1 visited := by
      simp only [bindChild] at first
      split at first
      · rename_i empty
        obtain rfl := Option.some.inj first
        have none : (state.1.bindNode data n).1.children n = [] := List.isEmpty_iff.mp empty
        have below : Visits data (state.1.bindNode data n).1 ((state.1.bindNode data n).1.children n)
            [] (state.1.bindNode data n).1 [] := by
          rw [none]
          exact .nil data _
        exact ⟨_, _, by simp, below.node⟩
      · obtain ⟨⟨w, watchers⟩, inner, rfl⟩ := Option.map_eq_some_iff.mp first
        obtain ⟨visited, below⟩ := each _ _ _ _ inner
        exact ⟨_, _, List.append_assoc .., below.node⟩
    obtain ⟨own, visited, added, visits⟩ := here
    exact ⟨own ++ more, visited ++ visitedLater, by rw [collected, added, List.append_assoc],
      visits.append visitsLater⟩

/-- The walk visits the children of the node and all that stands below them when it ends. -/
theorem bindWithin_visits (depth : Nat) (w : World) (n : NodeId)
    (ran : bindWithin data depth w n = some (w', watchers)) :
    ∃ visited, Visits data w (w.children n) watchers w' visited := by
  induction depth generalizing w n w' watchers with
  | zero => cases ran
  | succ depth ih =>
    rw [bindWithin_succ] at ran
    obtain ⟨own, visited, collected, visits⟩ :=
      fold_visits (fun w n _ _ ran => ih w n ran) _ _ ran
    obtain rfl : own = watchers := by simpa using collected.symm
    exact ⟨visited, visits⟩

/-- The node stands somewhere below the other one. -/
inductive Below (w : World) (root : NodeId) : NodeId → Prop where
  | child (stands : n ∈ w.children root) : Below w root n
  | deeper (above : Below w root m) (stands : n ∈ w.children m) : Below w root n

/-- Whatever stands below the root when the walk has ended has been visited. -/
theorem visited_of_below {w w' : World} (visits : Visits data w (w.children root) watchers w' visited)
    (below : Below w' root n) : n ∈ visited := by
  induction below with
  | child stands =>
    by_cases again : root ∈ visited
    · exact visits.closed root again _ stands
    · have kept := children_bindAll w data visited again
      rw [visits.bound] at kept
      exact visits.begins _ (kept ▸ stands)
  | deeper _ stands ih => exact visits.closed _ ih _ stands

end DataBinding.World
