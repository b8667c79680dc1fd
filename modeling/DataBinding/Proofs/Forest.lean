import DataBinding.Proofs.Marking

/-! Binding a page whose nodes stand in a tree, each of them in one place. The walk comes to
every node once, an element before what then stands below it; where a `v-text` has replaced
what stood below an element, it finds the new text instead. -/
namespace DataBinding.World

/-- The nodes that stand below some roots, with the roots, in document order. -/
inductive Spans (w : World) : List NodeId → List NodeId → Prop where
  | nil : Spans w [] []
  | cons (below : Spans w (w.children n) ns) (rest : Spans w roots ms) :
      Spans w (n :: roots) (n :: ns ++ ms)

theorem Spans.unique {w : World} (spans : w.Spans roots ns) (again : w.Spans roots ms) : ns = ms := by
  induction spans generalizing ms with
  | nil =>
    cases again
    rfl
  | cons _ _ ihBelow ihRest =>
    cases again with
    | cons below rest => rw [ihBelow below, ihRest rest]

theorem Spans.leaf {w : World} (bare : w.children n = []) : w.Spans [n] [n] := by
  have under : w.Spans (w.children n) [] := by
    rw [bare]
    exact .nil
  exact .cons under .nil

theorem Spans.only {w : World} (below : w.children n = [m]) (spans : w.Spans [m] ns) :
    w.Spans [n] (n :: ns) := by
  have under : w.Spans (w.children n) ns := below ▸ spans
  have all : w.Spans [n] (n :: ns ++ []) := .cons under .nil
  rwa [List.append_nil] at all

theorem Spans.append {w : World} (first : w.Spans roots ns) (second : w.Spans others ms) :
    w.Spans (roots ++ others) (ns ++ ms) := by
  induction first with
  | nil => exact second
  | cons below _ _ ih =>
    rw [List.append_assoc]
    exact .cons below ih

theorem exists_of_isSome {w : World} {ns : List NodeId}
    (present : ns.all (fun n => (w.node? n).isSome) = true) : ∀ n ∈ ns, ∃ x, w.node? n = some x :=
  fun n member => Option.isSome_iff_exists.mp (List.all_eq_true.mp present n member)

/-- No directive replaces what stands below the node. -/
def Plain (w : World) (n : NodeId) : Prop :=
  ∀ e, w.node? n = some (.element e) → ∀ a ∈ e.attributes,
    Directive.ofAttribute? a.name ≠ some .text

/-- The node is one of the roots or stands below one of them, and nothing replaces it on the
way. -/
inductive Reaches (w : World) : List NodeId → NodeId → Prop where
  | root (member : n ∈ roots) : Reaches w roots n
  | deeper (member : m ∈ roots) (plain : w.Plain m) (reaches : Reaches w (w.children m) n) :
      Reaches w roots n

/-- What a walk binds: the templates of the nodes that it reaches, and interpolations in
the texts that it gives to elements. -/
inductive Bound (w w' : World) (data : ObjectId) (roots : List NodeId) (n : NodeId) :
    Role → String → Prop where
  | own (reaches : w.Reaches roots n) (template : w.Template data n role key) :
      Bound w w' data roots n role key
  | generated (reaches : w.Reaches roots m) (template : w.Template data m .text held)
      (child : n ∈ w'.children m)
      (interpolates : Text.Interpolation.find? (w.peek data held).textContent = some f) :
      Bound w w' data roots n (.label (f.substitute (w.peek data f.key).display)) f.key

theorem Reaches.mem {w : World} (spans : Spans w roots ns) (reaches : w.Reaches roots n) : n ∈ ns := by
  induction spans with
  | nil =>
    cases reaches with
    | root member => cases member
    | deeper member => cases member
  | @cons m ns roots ms _ _ ihBelow ihRest =>
    have later : w.Reaches roots n → n ∈ m :: ns ++ ms := fun reaches =>
      List.mem_append_right _ (ihRest reaches)
    cases reaches with
    | root member =>
      rcases List.mem_cons.mp member with rfl | rest
      · exact List.mem_cons_self
      · exact later (.root rest)
    | deeper member plain reaches =>
      rcases List.mem_cons.mp member with rfl | rest
      · exact List.mem_append_left _ (List.mem_cons_of_mem _ (ihBelow reaches))
      · exact later (.deeper rest plain reaches)

theorem reaches_cons {w : World} : w.Reaches (m :: roots) n ↔
    n = m ∨ w.Plain m ∧ w.Reaches (w.children m) n ∨ w.Reaches roots n := by
  constructor
  · intro reaches
    cases reaches with
    | root member =>
      rcases List.mem_cons.mp member with same | rest
      · exact .inl same
      · exact .inr (.inr (.root rest))
    | deeper member plain reaches =>
      rcases List.mem_cons.mp member with rfl | rest
      · exact .inr (.inl ⟨plain, reaches⟩)
      · exact .inr (.inr (.deeper rest plain reaches))
  · rintro (rfl | ⟨plain, reaches⟩ | reaches)
    · exact .root List.mem_cons_self
    · exact .deeper List.mem_cons_self plain reaches
    · cases reaches with
      | root member => exact .root (List.mem_cons_of_mem _ member)
      | deeper member plain reaches => exact .deeper (List.mem_cons_of_mem _ member) plain reaches

/-- The binding for the text that a node is given. -/
def Generates (w w' : World) (data : ObjectId) (m n : NodeId) (role : Role) (key : String) : Prop :=
  ∃ held f, w.Template data m .text held ∧ n ∈ w'.children m ∧
    Text.Interpolation.find? (w.peek data held).textContent = some f ∧
    role = .label (f.substitute (w.peek data f.key).display) ∧ key = f.key

theorem bound_iff {w w' : World} : Bound w w' data roots n role key ↔
    w.Reaches roots n ∧ w.Template data n role key ∨
      ∃ m, w.Reaches roots m ∧ Generates w w' data m n role key := by
  constructor
  · intro bound
    cases bound with
    | own reaches template => exact .inl ⟨reaches, template⟩
    | generated reaches template child interpolates =>
      exact .inr ⟨_, reaches, _, _, template, child, interpolates, rfl, rfl⟩
  · rintro (⟨reaches, template⟩ | ⟨m, reaches, held, f, template, child, interpolates, rfl, rfl⟩)
    · exact .own reaches template
    · exact .generated reaches template child interpolates

/-- The bindings of a first root, of what stands below it, and of the other roots. -/
theorem bound_cons {w w' : World} : Bound w w' data (m :: roots) n role key ↔
    (n = m ∧ w.Template data n role key ∨ w.Plain m ∧ Bound w w' data (w.children m) n role key ∨
      Generates w w' data m n role key) ∨ Bound w w' data roots n role key := by
  simp only [bound_iff, reaches_cons]
  constructor
  · rintro (⟨rfl | ⟨plain, reaches⟩ | reaches, template⟩ | ⟨k, rfl | ⟨plain, reaches⟩ | reaches, made⟩)
    · exact .inl (.inl ⟨rfl, template⟩)
    · exact .inl (.inr (.inl ⟨plain, .inl ⟨reaches, template⟩⟩))
    · exact .inr (.inl ⟨reaches, template⟩)
    · exact .inl (.inr (.inr made))
    · exact .inl (.inr (.inl ⟨plain, .inr ⟨k, reaches, made⟩⟩))
    · exact .inr (.inr ⟨k, reaches, made⟩)
  · rintro ((⟨rfl, template⟩ | ⟨plain, ⟨reaches, template⟩ | ⟨k, reaches, made⟩⟩ | made) |
      ⟨reaches, template⟩ | ⟨k, reaches, made⟩)
    · exact .inl ⟨.inl rfl, template⟩
    · exact .inl ⟨.inr (.inl ⟨plain, reaches⟩), template⟩
    · exact .inr ⟨k, .inr (.inl ⟨plain, reaches⟩), made⟩
    · exact .inr ⟨m, .inl rfl, made⟩
    · exact .inl ⟨.inr (.inr reaches), template⟩
    · exact .inr ⟨k, .inr (.inr reaches), made⟩

/-- It matters only what stands below the nodes of the tree when the walk has ended. -/
theorem bound_congr {w a b : World} (spans : Spans w roots ns) (same : ∀ m ∈ ns, a.children m = b.children m) :
    Bound w a data roots n role key ↔ Bound w b data roots n role key := by
  simp only [bound_iff, Generates]
  refine or_congr Iff.rfl (exists_congr fun m => and_congr_right fun reaches => ?_)
  rw [same m (reaches.mem spans)]

end DataBinding.World
