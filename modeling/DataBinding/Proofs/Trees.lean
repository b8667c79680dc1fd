import Mathlib.Data.List.Nodup
import Mathlib.Data.List.Perm.Subperm
import DataBinding.World.Page

/-! The tree that stands at a node, described child by child and without a bound on its depth.
There is one at most, and reading the page finds it: the nodes on a way down are different, so
that there are no more of them than there are nodes. -/
namespace DataBinding.World

/-- Different nodes are no more than there are. -/
theorem length_le_size {w : World} {ns : List NodeId} (nodup : ns.Nodup)
    (page : ∀ n ∈ ns, ∃ x, w.node? n = some x) : ns.length ≤ w.nodes.size := by
  have apart : (ns.map (·.index)).Nodup := by
    apply nodup.map
    intro a b same
    cases a
    cases b
    exact congrArg NodeId.mk same
  have inside : ns.map (·.index) ⊆ List.range w.nodes.size := by
    intro i member
    obtain ⟨n, listed, rfl⟩ := List.mem_map.mp member
    obtain ⟨x, found⟩ := page n listed
    exact List.mem_range.mpr (Arena.lt_size_of_get? found)
  have shorter := (apart.subperm inside).length_le
  simpa using shorter

mutual

/-- The tree stands at the node. -/
def Stands (w : World) (n : NodeId) : Tree → Prop
  | .text content => w.node? n = some (.text content)
  | .element tag attributes trees => ∃ e, w.node? n = some (.element e) ∧ e.tag = tag ∧
      e.attributes = attributes ∧ w.StandAll e.children trees

/-- The trees stand at the nodes, one at each. -/
def StandAll (w : World) (ns : List NodeId) : List Tree → Prop
  | [] => ns = []
  | t :: rest => ∃ n more, ns = n :: more ∧ w.Stands n t ∧ w.StandAll more rest

end

mutual

/-- Only one tree stands at a node. -/
theorem Stands.unique {w : World} (t : Tree) (stands : w.Stands n t) (again : w.Stands n t') :
    t = t' := by
  cases t with
  | text content =>
    have found : w.node? n = some (.text content) := stands
    cases t' with
    | text content' =>
      cases found.symm.trans again
      rfl
    | element tag attributes trees =>
      obtain ⟨e, found', -⟩ := again
      cases found.symm.trans found'
  | element tag attributes trees =>
    obtain ⟨e, found, rfl, rfl, below⟩ := stands
    cases t' with
    | text content => cases found.symm.trans again
    | element tag attributes trees' =>
      obtain ⟨e', found', rfl, rfl, below'⟩ := again
      cases found.symm.trans found'
      rw [StandAll.unique trees below below']

theorem StandAll.unique {w : World} (trees : List Tree) (stand : w.StandAll ns trees)
    (again : w.StandAll ns trees') : trees = trees' := by
  cases trees with
  | nil =>
    obtain rfl : ns = [] := stand
    cases trees' with
    | nil => rfl
    | cons => obtain ⟨n, more, first, -⟩ := again; cases first
  | cons t rest =>
    obtain ⟨n, more, rfl, here, later⟩ := stand
    cases trees' with
    | nil => cases again
    | cons t' rest' =>
      obtain ⟨_, _, first, here', later'⟩ := again
      obtain ⟨rfl, rfl⟩ := List.cons.inj first
      rw [Stands.unique t here here', StandAll.unique rest later later']

end

/-- What is read within a depth stands there. -/
theorem stands_of_treeWithin {w : World} (read : w.treeWithin depth n = some t) : w.Stands n t := by
  induction depth generalizing n t with
  | zero => cases read
  | succ depth ih =>
    have all : ∀ (ns : List NodeId) trees, ns.mapM (w.treeWithin depth) = some trees →
        w.StandAll ns trees := by
      intro ns
      induction ns with
      | nil =>
        intro trees read
        obtain rfl : [] = trees := by simpa using read
        exact rfl
      | cons m more ihMore =>
        intro trees read
        simp only [List.mapM_cons, Option.bind_eq_bind, Option.bind_eq_some_iff,
          Option.pure_def, Option.some.injEq] at read
        obtain ⟨first, here, rest, later, rfl⟩ := read
        exact ⟨m, more, rfl, ih here, ihMore rest later⟩
    simp only [treeWithin] at read
    split at read
    · cases read
    · rename_i content found
      obtain rfl := Option.some.inj read
      exact found
    · rename_i e found
      obtain ⟨trees, below, rfl⟩ := Option.map_eq_some_iff.mp read
      exact ⟨e, found, rfl, rfl, all _ _ below⟩

section Depth

private theorem sizeOf_lt_element {trees : List Tree} (among : t ∈ trees) (tag : String)
    (attributes : List Attribute) : sizeOf t < sizeOf (Tree.element tag attributes trees) := by
  have smaller := List.sizeOf_lt_of_mem among
  simp only [Tree.element.sizeOf_spec]
  omega

variable {w : World}

mutual

/-- The nodes above are different, as ever smaller trees stand there; so some depth is left. -/
private theorem treeWithin_of_stands (t : Tree) {n : NodeId} {above : List NodeId}
    (stands : w.Stands n t) (nodup : above.Nodup) (page : ∀ m ∈ above, ∃ x, w.node? m = some x)
    (larger : ∀ m ∈ above, ∀ x, w.Stands m x → sizeOf t < sizeOf x) :
    w.treeWithin (w.nodes.size + 1 - above.length) n = some t := by
  obtain ⟨depth, left⟩ : ∃ depth, w.nodes.size + 1 - above.length = depth + 1 :=
    ⟨w.nodes.size - above.length, by have := length_le_size nodup page; omega⟩
  rw [left]
  cases t with
  | text content => simp [treeWithin, show w.node? n = _ from stands]
  | element tag attributes trees =>
    obtain ⟨e, found, rfl, rfl, below⟩ := id stands
    have new : n ∉ above := fun member => Nat.lt_irrefl _ (larger n member _ stands)
    have kids := mapM_treeWithin trees below (List.nodup_cons.mpr ⟨new, nodup⟩) ?_ ?_
    · have next : w.nodes.size + 1 - (n :: above).length = depth := by
        rw [List.length_cons]
        omega
      rw [next] at kids
      simp [treeWithin, found, kids]
    · intro m member
      rcases List.mem_cons.mp member with rfl | higher
      · exact ⟨_, found⟩
      · exact page m higher
    · intro m member x there t among
      have smaller := sizeOf_lt_element among e.tag e.attributes
      rcases List.mem_cons.mp member with rfl | higher
      · exact Stands.unique _ stands there ▸ smaller
      · exact Nat.lt_trans smaller (larger m higher x there)

private theorem mapM_treeWithin (trees : List Tree) {ns above : List NodeId}
    (stand : w.StandAll ns trees) (nodup : above.Nodup)
    (page : ∀ m ∈ above, ∃ x, w.node? m = some x)
    (larger : ∀ m ∈ above, ∀ x, w.Stands m x → ∀ t ∈ trees, sizeOf t < sizeOf x) :
    ns.mapM (w.treeWithin (w.nodes.size + 1 - above.length)) = some trees := by
  cases trees with
  | nil =>
    obtain rfl : ns = [] := stand
    rfl
  | cons t rest =>
    obtain ⟨n, more, rfl, here, later⟩ := stand
    have first := treeWithin_of_stands t here nodup page fun m member x there =>
      larger m member x there t List.mem_cons_self
    have others := mapM_treeWithin rest later nodup page fun m member x there t among =>
      larger m member x there t (List.mem_cons_of_mem _ among)
    simp [List.mapM_cons, first, others]

end

end Depth

/-- Reading the page at a node finds what stands there. -/
theorem tree?_eq_some_iff {w : World} : w.tree? n = some t ↔ w.Stands n t := by
  constructor
  · exact stands_of_treeWithin
  · intro stands
    exact treeWithin_of_stands t stands List.nodup_nil (by simp) (by simp)

end DataBinding.World
