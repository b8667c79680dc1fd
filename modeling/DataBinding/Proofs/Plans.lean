import DataBinding.Proofs.Enlisting
import DataBinding.Proofs.Installing
import DataBinding.Proofs.Trees

/-! What binding a page comes to. The bindings that a walk makes are those of a plan, which is read
off the page and the data as they are before: those of a text, those of an element before those of
what then stands below it, and the new text instead of that where there is a `v-text`. -/
namespace DataBinding

/-- The watchers of those bindings that show a property, if the first one has this number. -/
def Binding.enrolled (key : String) (first : Nat) (bs : List Binding) : List SubscriberId :=
  (bs.zipIdx first).filterMap fun b => if b.1.key = key then some ⟨b.2⟩ else none

/-- What shows a property exists. -/
private theorem Binding.Shows.index_lt {texts : String → String} {w w' : World} {data : ObjectId}
    {b : Binding} (shows : b.Shows texts w data w') : b.node.index < w'.nodes.size := by
  unfold Binding.Shows at shows
  split at shows
  · exact Arena.lt_size_of_get? shows
  · obtain ⟨e, found, -⟩ := shows
    exact Arena.lt_size_of_get? found
  · obtain ⟨e, found, -⟩ := shows
    exact Arena.lt_size_of_get? found

namespace World

/-- The text that a node shows in the end to which an element has given a text: that text is bound
like any other. -/
def settled (w : World) (data : ObjectId) (content : String) : String :=
  match Text.Interpolation.find? content with
  | none => content
  | some f => f.substitute (w.peek data f.key).display

/-- The bindings that a walk over some nodes and what stands below them makes, in its order. The
nodes that it adds have the numbers from `next` on, up to `last`. -/
inductive Plan (w : World) (data : ObjectId) : Nat → List NodeId → List Binding → Nat → Prop where
  | nil : Plan w data next [] [] next
  /-- A text is bound if it has an interpolation. -/
  | text (found : w.node? n = some (.text content)) (rest : Plan w data next roots bs last) :
      Plan w data next (n :: roots) (w.labels data n content ++ bs) last
  /-- The walk goes on below an element that keeps what stands there. -/
  | plain (found : w.node? n = some (.element e)) (plain : w.Plain n)
      (below : Plan w data next e.children bs middle) (rest : Plan w data middle roots bs' last) :
      Plan w data next (n :: roots) (directives n e.attributes ++ bs ++ bs') last
  /-- Nothing stands any more below an element whose text is empty. -/
  | emptied (found : w.node? n = some (.element e)) (listed : a ∈ e.attributes)
      (named : Directive.ofAttribute? a.name = some .text)
      (empty : (w.peek data a.value).textContent = "") (rest : Plan w data next roots bs last) :
      Plan w data next (n :: roots) (directives n e.attributes ++ bs) last
  /-- Any other text stands in a new node, which is bound as the walk comes to it. -/
  | replaced (found : w.node? n = some (.element e)) (listed : a ∈ e.attributes)
      (named : Directive.ofAttribute? a.name = some .text)
      (filled : (w.peek data a.value).textContent ≠ "")
      (rest : Plan w data (next + 1) roots bs last) :
      Plan w data next (n :: roots)
        (directives n e.attributes ++ w.labels data ⟨next⟩ (w.peek data a.value).textContent ++ bs)
        last

theorem properties_of_objects {a w : World} (objects : a.objects = w.objects) (o : ObjectId) :
    a.properties o = w.properties o := by
  rw [properties, properties, objects]

theorem labels_of_objects {a w : World} (objects : a.objects = w.objects) (data : ObjectId)
    (n : NodeId) (content : String) : a.labels data n content = w.labels data n content := by
  simp only [labels, peek_of_objects objects]

theorem settled_of_objects {a w : World} (objects : a.objects = w.objects) (data : ObjectId) :
    a.settled data = w.settled data := by
  funext content
  simp only [settled, peek_of_objects objects]

/-- Part of a walk has made these bindings, of some nodes and of the texts that it has added. -/
structure Installs (w : World) (data : ObjectId) (ns : List NodeId) (bs : List Binding)
    (w' : World) : Prop where
  enrolls : Enrolls w data bs w'
  draws : Draws (w.settled data) w data bs w'
  places : b ∈ bs → b.node ∈ ns ∨ w.nodes.size ≤ b.node.index
  /-- Where nothing is bound, nothing at all changes. -/
  idle : bs = [] → w' = w

variable {w : World} {data : ObjectId} {ns ms : List NodeId} {bs bs' : List Binding}

namespace Installs

theorem nil (w : World) (data : ObjectId) : Installs w data [] [] w where
  enrolls := .nil w data
  draws := .nil _ w data
  places member := absurd member List.not_mem_nil
  idle _ := rfl

/-- Nodes that were there before, and are not among those of the first part, are left alone by it,
and what it has added is left alone by the second. -/
theorem append {a b c : World} (first : Installs a data ns bs b) (second : Installs b data ms bs' c)
    (old : ∀ n ∈ ms, n.index < a.nodes.size) (away : ∀ n ∈ ms, n ∉ ns) :
    Installs a data (ns ++ ms) (bs ++ bs') c where
  enrolls := first.enrolls.append second.enrolls
  draws := by
    have objects := first.enrolls.objects
    have grows := first.draws.spares.size
    refine first.draws.append (settled_of_objects objects data ▸ second.draws) objects ?_ ?_
    · intro x early y late same
      have here := Binding.node_of_part same
      have inside := (first.draws.shows early).index_lt
      rcases second.places late with among | new
      · rcases first.places early with visited | added
        · exact away y.node among (here ▸ visited)
        · have := old y.node among
          rw [here] at this
          omega
      · rw [here] at new
        omega
    · intro x early role y late below
      obtain ⟨added, inside⟩ := first.draws.fresh early role below
      rcases second.places late with among | new
      · have := old y.node among
        omega
      · omega
  places {x} member := by
    rcases List.mem_append.mp member with early | late
    · exact (first.places early).imp_left (List.mem_append_left ms)
    · rcases second.places late with among | new
      · exact .inl (List.mem_append_right ns among)
      · exact .inr (Nat.le_trans first.draws.spares.size new)
  idle empty := by
    obtain ⟨rfl, rfl⟩ := List.append_eq_nil_iff.mp empty
    rw [second.idle rfl, first.idle rfl]

theorem mono {w' : World} (installs : Installs w data ns bs w') (among : ∀ n ∈ ns, n ∈ ms) :
    Installs w data ms bs w' :=
  ⟨installs.enrolls, installs.draws, fun member => (installs.places member).imp_left (among _),
    installs.idle⟩

/-- Other nodes are left alone. -/
theorem other {w' : World} (installs : Installs w data ns bs w') (apart : n ∉ ns)
    (found : w.node? n = some x) : w'.node? n = some x := by
  have away : ∀ p, (p = .text n ∨ p = .value n ∨ p = .listeners n) → ¬∃ b ∈ bs, b.Writes p := by
    rintro p part ⟨b, member, writes⟩
    have here := writes.node part
    rcases installs.places member with among | new
    · exact apart (here ▸ among)
    · have := Arena.lt_size_of_get? found
      rw [here] at new
      omega
  exact installs.draws.spares.node (away _ (.inl rfl)) (away _ (.inr (.inl rfl)))
    (away _ (.inr (.inr rfl))) found

end Installs

/-- A walk has come to some nodes: they are as they were at first, and so is the data. -/
structure Begun (w : World) (data : ObjectId) (a : World) (ns : List NodeId) : Prop where
  objects : a.objects = w.objects
  free : a.target? = none
  exist : (a.properties data).dep? key = some d → d.index < a.deps.size
  page : n ∈ ns → ∃ x, w.node? n = some x ∧ a.node? n = some x ∧ x.Tidy

namespace Begun

theorem among {a : World} (begun : Begun w data a ns) (among : ∀ n ∈ ms, n ∈ ns) :
    Begun w data a ms :=
  ⟨begun.objects, begun.free, begun.exist, fun member => begun.page (among _ member)⟩

theorem after {a b : World} (begun : Begun w data a (ns ++ ms)) (installs : Installs a data ns bs b)
    (away : ∀ n ∈ ms, n ∉ ns) : Begun w data b ms where
  objects := installs.enrolls.objects.trans begun.objects
  free := by
    rw [target?, targets_of_custody installs.enrolls.custody]
    exact begun.free
  exist {key d} listed := by
    rw [properties_of_objects installs.enrolls.objects] at listed
    rw [installs.enrolls.deps]
    exact begun.exist listed
  page {n} member := by
    obtain ⟨x, before, now, tidy⟩ := begun.page (List.mem_append_right ns member)
    exact ⟨x, before, installs.other (away n member) now, tidy⟩

end Begun

private theorem of_directive {attributes : List Attribute} (member : b ∈ directives n attributes) :
    ∃ c ∈ attributes, ∃ d, Directive.ofAttribute? c.name = some d ∧ b = ⟨n, d.role, c.value⟩ := by
  obtain ⟨c, listed, made⟩ := List.mem_filterMap.mp member
  obtain ⟨d, named, rfl⟩ := Option.map_eq_some_iff.mp made
  exact ⟨c, listed, d, named, rfl⟩

private theorem of_label (member : b ∈ w.labels data n content) :
    ∃ shown, b.node = n ∧ b.role = .label shown := by
  unfold labels at member
  split at member
  · cases member
  · rw [List.mem_singleton.mp member]
    exact ⟨_, rfl, rfl⟩

section Nodes

variable {a : World} (begun : Begun w data a [n])
include begun

/-- Binding a text. -/
private theorem installs_text (found : a.node? n = some (.text content)) :
    Installs a data [n] (a.labels data n content) (a.bindNode data n).1 ∧
      (a.bindNode data n).1.nodes.size = a.nodes.size ∧
      (a.bindNode data n).1.node? n = some (.text (a.settled data content)) := by
  have same : a.bindNode data n = a.installAll data (a.labels data n content) := by
    simp only [bindNode, found, bindText_eq_installAll begun.free]
  have enrolls := Enrolls.installAll (a.labels data n content) fun _ _ => begun.exist
  rw [← same] at enrolls
  cases interpolates : Text.Interpolation.find? content with
  | none =>
    have none : a.labels data n content = [] := by simp only [labels, interpolates]
    have idle : (a.bindNode data n).1 = a := by rw [same, none, installAll]
    rw [idle, none]
    refine ⟨⟨.nil a data, .nil _ a data, by simp, fun _ => rfl⟩, rfl, ?_⟩
    rw [found, settled, interpolates]
  | some f =>
    let shown := f.substitute (a.peek data f.key).display
    have one : a.labels data n content = [⟨n, .label shown, f.key⟩] := by
      simp only [labels, interpolates, shown]
    have made : (a.bindNode data n).1 = (a.install data ⟨n, .label shown, f.key⟩).1 := by
      rw [same, one]
      rfl
    have draws : Draws id a data [⟨n, .label shown, f.key⟩] (a.bindNode data n).1 :=
      made ▸ .install ⟨_, found, trivial⟩
    have shows := draws.shows (List.mem_singleton_self _)
    rw [one] at enrolls ⊢
    refine ⟨⟨enrolls, draws.congr (by simp), by simp, by simp⟩, ?_, ?_⟩
    · rw [made, install, nodes_watch]
      simp [draw, setText, found, modifyNode]
    · rw [settled, interpolates]
      exact shows

private theorem bindNode_element (found : a.node? n = some (.element e)) :
    a.bindNode data n = a.installAll data (directives n e.attributes) := by
  simp only [bindNode, found, bindAttributes_eq_installAll begun.free]

/-- Binding an element, whatever happens to what stands below it. -/
private theorem directs (found : a.node? n = some (.element e)) :
    Enrolls a data (directives n e.attributes) (a.bindNode data n).1 ∧
      Draws id a data (directives n e.attributes) (a.bindNode data n).1 := by
  obtain ⟨x, -, now, tidy⟩ := begun.page (List.mem_singleton_self n)
  obtain rfl := Option.some.inj (found.symm.trans now)
  rw [bindNode_element begun found]
  exact ⟨.installAll _ fun _ _ => begun.exist, .attributes found e.attributes tidy⟩

/-- The bindings that an element is given do not depend on what its texts come to, so long as it is
given none. -/
private theorem installs_directives (found : a.node? n = some (.element e))
    (bare : ∀ c ∈ e.attributes, Directive.ofAttribute? c.name = some .text →
      (a.peek data c.value).textContent = "") :
    Installs a data [n] (directives n e.attributes) (a.bindNode data n).1 := by
  obtain ⟨enrolls, draws⟩ := directs begun found
  refine ⟨enrolls, draws.congr ?_, ?_, ?_⟩
  · intro b member role filled
    obtain ⟨c, listed, d, named, rfl⟩ := of_directive member
    cases d with
    | model => cases role
    | text => exact absurd (bare c listed named) filled
  · intro b member
    obtain ⟨c, -, d, -, rfl⟩ := of_directive member
    exact .inl (List.mem_singleton_self n)
  · intro none
    rw [bindNode_element begun found, none, installAll]

/-- Binding an element that is given a text, and then that text. -/
private theorem installs_replaced (found : a.node? n = some (.element e)) (listed : c ∈ e.attributes)
    (named : Directive.ofAttribute? c.name = some .text)
    (filled : (a.peek data c.value).textContent ≠ "") :
    let b := (a.bindNode data n).1
    b.children n = [⟨a.nodes.size⟩] ∧ (b.bindNode data ⟨a.nodes.size⟩).1.children ⟨a.nodes.size⟩ = [] ∧
      (b.bindNode data ⟨a.nodes.size⟩).1.nodes.size = a.nodes.size + 1 ∧
      Installs a data [n] (directives n e.attributes ++
        a.labels data ⟨a.nodes.size⟩ (a.peek data c.value).textContent)
          (b.bindNode data ⟨a.nodes.size⟩).1 := by
  intro b
  obtain ⟨x, -, now, tidy⟩ := begun.page (List.mem_singleton_self n)
  obtain rfl := Option.some.inj (found.symm.trans now)
  obtain ⟨enrolls, draws⟩ := directs begun found
  have same : b = (a.bindAttributes data n e.attributes).1 := by simp only [b, bindNode, found]
  obtain ⟨only, alone, size⟩ := children_text data found e.attributes tidy listed named
  rw [← same] at only alone size
  rw [if_neg filled] at only size
  rw [ShowsAlone, if_neg filled, if_neg filled] at alone
  obtain ⟨g, single, text⟩ := alone
  obtain rfl : (⟨a.nodes.size⟩ : NodeId) = g := List.singleton_inj.mp single
  have begun' : Begun b data b [⟨a.nodes.size⟩] := by
    refine ⟨rfl, ?_, ?_, fun member => ?_⟩
    · rw [target?, targets_of_custody enrolls.custody]
      exact begun.free
    · intro key d tracked
      rw [properties_of_objects enrolls.objects] at tracked
      rw [enrolls.deps]
      exact begun.exist tracked
    · rw [List.mem_singleton.mp member]
      exact ⟨_, text, text, by simp [Node.Tidy, Node.attributes]⟩
  obtain ⟨installs, unmoved, shown⟩ := installs_text begun' text
  rw [settled_of_objects enrolls.objects] at shown
  rw [labels_of_objects enrolls.objects] at installs
  refine ⟨only, by simp [children, shown, Node.children], unmoved.trans size, ?_, ?_, ?_, ?_⟩
  · exact enrolls.append installs.enrolls
  · refine draws.generated (installs.draws.congr fun y member role => ?_) enrolls.objects ?_ ?_ ?_ ?_
      text shown
    · obtain ⟨_, -, label⟩ := of_label member
      cases label.symm.trans role
    · intro x member
      obtain ⟨c, -, d, -, rfl⟩ := of_directive member
      obtain ⟨x', after, keeps⟩ := draws.spares.kept found
      cases keeps with
      | element => exact ⟨_, after⟩
    · intro x member _
      obtain ⟨c, -, d, -, rfl⟩ := of_directive member
      exact only
    · intro y member
      obtain ⟨_, here, -⟩ := of_label member
      exact here
    · intro y member role
      obtain ⟨_, -, label⟩ := of_label member
      cases label.symm.trans role
  · intro x member
    rcases List.mem_append.mp member with early | late
    · obtain ⟨c, -, d, -, rfl⟩ := of_directive early
      exact .inl (List.mem_singleton_self n)
    · obtain ⟨_, here, -⟩ := of_label late
      exact .inr (here ▸ Nat.le_refl _)
  · intro none
    have directed : (⟨n, .text, c.value⟩ : Binding) ∈ directives n e.attributes :=
      List.mem_filterMap.mpr ⟨c, listed, by simp [named, Directive.role]⟩
    rw [(List.append_eq_nil_iff.mp none).1] at directed
    cases directed

end Nodes

/-- The walk over one node and what then stands below it makes what the plan begins with. -/
private theorem walks_child {a : World} (begun : Begun w data a (n :: ns)) (apart : n ∉ ns)
    (depth : Nat) (ws : List SubscriberId)
    (below : ∀ {a}, Begun w data a ns → ∃ bs own b,
      (w.children n).foldlM (bindChild data depth) (a, []) = some (b, own) ∧
        Plan w data a.nodes.size (w.children n) bs b.nodes.size ∧ Installs a data ns bs b) :
    ∃ bs own b, bindChild data (depth + 1) (a, ws) n = some (b, ws ++ own) ∧
      Installs a data (n :: ns) bs b ∧ ∀ {roots bs' last}, Plan w data b.nodes.size roots bs' last →
        Plan w data a.nodes.size (n :: roots) (bs ++ bs') last := by
  have here : Begun w data a [n] := begun.among (by simp)
  obtain ⟨x, before, now, tidy⟩ := begun.page List.mem_cons_self
  have values : ∀ key, a.peek data key = w.peek data key := peek_of_objects begun.objects data
  -- Without anything below it, the walk ends with the node itself.
  have ends : (a.bindNode data n).1.children n = [] →
      bindChild data (depth + 1) (a, ws) n =
        some ((a.bindNode data n).1, ws ++ (a.bindNode data n).2) := by
    intro bare
    simp [bindChild, bare]
  cases x with
  | text content =>
    obtain ⟨installs, size, shown⟩ := installs_text here now
    refine ⟨_, _, _, ends (by simp [children, shown, Node.children]), installs.mono (by simp), ?_⟩
    intro roots bs' last rest
    rw [size] at rest
    rw [labels_of_objects begun.objects]
    exact .text before rest
  | element e =>
    by_cases plain : w.Plain n
    · have bare := plain e before
      obtain ⟨same, size⟩ := children_plain a data n n e.attributes bare
      have bound : a.bindNode data n = a.bindAttributes data n e.attributes := by
        simp only [bindNode, now]
      rw [← bound] at same size
      have installs := installs_directives here now fun c listed named => absurd named (bare c listed)
      have next : Begun w data (a.bindNode data n).1 ns :=
        Begun.after (show Begun w data a ([n] ++ ns) from begun) installs fun m member => by
          rw [List.mem_singleton]
          rintro rfl
          exact apart member
      obtain ⟨bs, own, b, walked, plan, installs'⟩ := below next
      have children : (a.bindNode data n).1.children n = w.children n := by
        rw [same, World.children, World.children, now, before]
      refine ⟨_, (a.bindNode data n).2 ++ own, b, ?_, installs.append installs' ?_ ?_, ?_⟩
      · rw [bindChild_succ]
        simp only [children, walked, Option.map_some, List.append_assoc]
      · intro m member
        obtain ⟨x, -, found, -⟩ := begun.page (List.mem_cons_of_mem n member)
        exact Arena.lt_size_of_get? found
      · rintro m member same
        exact apart (List.mem_singleton.mp same ▸ member)
      · intro roots bs' last rest
        rw [size, children_of_element before] at plan
        exact .plain before plain plan rest
    · have replaced := plain
      simp only [Plain, not_forall, not_not] at replaced
      obtain ⟨e', found, c, listed, named⟩ := replaced
      obtain rfl : e = e' := by simpa using before.symm.trans found
      obtain ⟨only, -, size⟩ := children_text data now e.attributes tidy listed named
      have bound : a.bindNode data n = a.bindAttributes data n e.attributes := by
        simp only [bindNode, now]
      rw [← bound] at only size
      by_cases empty : (a.peek data c.value).textContent = ""
      · rw [if_pos empty] at only size
        have installs := installs_directives here now fun c' listed' named' => by
          have once : c'.name = c.name := eq_of_ofAttribute named' named
          rw [List.inj_on_of_nodup_map tidy listed' listed once]
          exact empty
        refine ⟨_, _, _, ends only, installs.mono (by simp), ?_⟩
        intro roots bs' last rest
        rw [size] at rest
        exact .emptied before listed named (values c.value ▸ empty) rest
      · obtain ⟨single, bare, last, installs⟩ := installs_replaced here now listed named empty
        have walked : bindChild data (depth + 1) (a, ws) n =
            some (((a.bindNode data n).1.bindNode data ⟨a.nodes.size⟩).1, ws ++
              ((a.bindNode data n).2 ++
                ((a.bindNode data n).1.bindNode data ⟨a.nodes.size⟩).2)) := by
          simp [bindChild, single, bindWithin_succ, bare]
        refine ⟨_, _, _, walked, installs.mono (by simp), ?_⟩
        intro roots bs' _ rest
        rw [last] at rest
        rw [labels_of_objects begun.objects, values]
        exact .replaced before listed named (values c.value ▸ empty) rest

/-- A walk over a forest makes what is planned, if it may go as deep as the forest has nodes. -/
theorem walks {a : World} (spans : Spans w roots ns) (nodup : ns.Nodup) (begun : Begun w data a ns)
    (depth : Nat) (enough : ns.length ≤ depth) (ws : List SubscriberId) : ∃ bs own b,
      roots.foldlM (bindChild data depth) (a, ws) = some (b, ws ++ own) ∧
        Plan w data a.nodes.size roots bs b.nodes.size ∧ Installs a data ns bs b := by
  induction spans generalizing a depth ws with
  | nil => exact ⟨[], [], a, by simp, .nil, .nil a data⟩
  | @cons m ns roots ms below rest ihBelow ihRest =>
    obtain ⟨early, later, between⟩ := List.nodup_append.mp nodup
    obtain ⟨apart, once⟩ := List.nodup_cons.mp early
    have away : ∀ n ∈ ms, n ∉ m :: ns := fun n after before => between n before n after rfl
    simp only [List.length_append, List.length_cons] at enough
    obtain ⟨depth, rfl⟩ : ∃ d, depth = d + 1 := ⟨depth - 1, by omega⟩
    have begun' : Begun w data a (m :: ns) :=
      begun.among fun n member => List.mem_append_left ms member
    obtain ⟨bs, own, b, walked, installs, plan⟩ := walks_child begun' apart depth ws fun next => by
      simpa using ihBelow once next depth (by omega) []
    obtain ⟨bs', own', c, walked', plan', installs'⟩ :=
      ihRest later (begun.after installs away) (depth + 1) (by omega) (ws ++ own)
    refine ⟨bs ++ bs', own ++ own', c, ?_, plan plan', installs.append installs' ?_ away⟩
    · rw [List.foldlM_cons, walked]
      simpa [List.append_assoc] using walked'
    · intro n member
      obtain ⟨x, -, found, -⟩ := begun.page (List.mem_append_right _ member)
      exact Arena.lt_size_of_get? found

/-- Binding a page whose nodes stand in one place each comes to its end, and makes what is
planned. -/
theorem bind_installs (data : ObjectId) (sound : w.Sound) (free : w.target? = none)
    (spans : w.Spans (w.children root) ns) (nodup : ns.Nodup)
    (page : ∀ n ∈ ns, ∃ x, w.node? n = some x) : ∃ bs own w',
      w.bind data root = some (w', own) ∧
        Plan w data w.nodes.size (w.children root) bs w'.nodes.size ∧ Installs w data ns bs w' := by
  have begun : Begun w data w ns := by
    refine ⟨rfl, free, fun {key d} listed => ?_, fun {n} member => ?_⟩
    · obtain ⟨slot, found, tracked⟩ := tracked_iff.mpr listed
      exact sound.dep found tracked
    · obtain ⟨x, found⟩ := page n member
      exact ⟨x, found, found, sound.tidy found⟩
  have fewer := length_le_size nodup page
  obtain ⟨bs, own, w', walked, plan, installs⟩ :=
    walks spans nodup begun (2 * w.nodes.size + 1) (by omega) []
  refine ⟨bs, own, w', ?_, plan, installs⟩
  rw [bind, walkBound, bindWithin_succ, walked, List.nil_append]

/-- Whatever the walk reaches is bound as its template says. -/
theorem Plan.covers (plan : Plan w data next roots bs last) (reaches : w.Reaches roots n)
    (template : w.Template data n role key) : ⟨n, role, key⟩ ∈ bs := by
  have directed : ∀ {e}, w.node? n = some (.element e) → ⟨n, role, key⟩ ∈ directives n e.attributes := by
    intro e found
    obtain ⟨a, listed, d, named, rfl, rfl⟩ := (template_of_element found).mp template
    exact List.mem_filterMap.mpr ⟨a, listed, by simp [named]⟩
  induction plan with
  | nil => cases reaches with
    | root member => cases member
    | deeper member => cases member
  | @text m content _ _ _ _ found _ ih =>
    rcases reaches_cons.mp reaches with rfl | ⟨-, reaches⟩ | later
    · obtain ⟨f, interpolates, rfl, rfl⟩ := (template_of_text found).mp template
      exact List.mem_append_left _ (by simp [labels, interpolates])
    · have bare : w.children m = [] := by simp [children, found, Node.children]
      rw [bare] at reaches
      cases reaches with
      | root member => cases member
      | deeper member => cases member
    · exact List.mem_append_right _ (ih later)
  | plain found _ _ _ ihBelow ih =>
    rcases reaches_cons.mp reaches with rfl | ⟨-, reaches⟩ | later
    · exact List.mem_append_left _ (List.mem_append_left _ (directed found))
    · rw [children_of_element found] at reaches
      exact List.mem_append_left _ (List.mem_append_right _ (ihBelow reaches))
    · exact List.mem_append_right _ (ih later)
  | emptied found listed named _ _ ih =>
    rcases reaches_cons.mp reaches with rfl | ⟨plain, -⟩ | later
    · exact List.mem_append_left _ (directed found)
    · exact absurd named (plain _ found _ listed)
    · exact List.mem_append_right _ (ih later)
  | replaced found listed named _ _ ih =>
    rcases reaches_cons.mp reaches with rfl | ⟨plain, -⟩ | later
    · exact List.mem_append_left _ (List.mem_append_left _ (directed found))
    · exact absurd named (plain _ found _ listed)
    · exact List.mem_append_right _ (ih later)

/-- There is one plan, as no element has an attribute twice. -/
theorem Plan.unique (tidy : ∀ {n x}, w.node? n = some x → x.Tidy)
    (plan : Plan w data next roots bs last) (again : Plan w data next roots bs' last') :
    bs = bs' ∧ last = last' := by
  have once : ∀ {n e}, w.node? n = some (.element e) → ∀ {c c' : Attribute}, c ∈ e.attributes →
      c' ∈ e.attributes → Directive.ofAttribute? c.name = some .text →
        Directive.ofAttribute? c'.name = some .text → c = c' := by
    intro n e found c c' listed listed' named named'
    exact List.inj_on_of_nodup_map (tidy found) listed listed' (eq_of_ofAttribute named named')
  induction plan generalizing bs' last' with
  | nil =>
    cases again
    exact ⟨rfl, rfl⟩
  | text found _ ih =>
    cases again with
    | text found' rest' =>
      cases found.symm.trans found'
      obtain ⟨rfl, rfl⟩ := ih rest'
      exact ⟨rfl, rfl⟩
    | plain found' | emptied found' | replaced found' => cases found.symm.trans found'
  | plain found plain _ _ ihBelow ih =>
    cases again with
    | text found' => cases found.symm.trans found'
    | plain found' _ below' rest' =>
      cases found.symm.trans found'
      obtain ⟨rfl, rfl⟩ := ihBelow below'
      obtain ⟨rfl, rfl⟩ := ih rest'
      exact ⟨rfl, rfl⟩
    | emptied found' listed named | replaced found' listed named =>
      exact absurd named (plain _ found' _ listed)
  | emptied found listed named empty _ ih =>
    cases again with
    | text found' => cases found.symm.trans found'
    | plain _ plain => exact absurd named (plain _ found _ listed)
    | emptied found' _ _ _ rest' =>
      cases found.symm.trans found'
      obtain ⟨rfl, rfl⟩ := ih rest'
      exact ⟨rfl, rfl⟩
    | replaced found' listed' named' filled =>
      cases found.symm.trans found'
      obtain rfl := once found listed listed' named named'
      exact absurd empty filled
  | replaced found listed named filled _ ih =>
    cases again with
    | text found' => cases found.symm.trans found'
    | plain _ plain => exact absurd named (plain _ found _ listed)
    | emptied found' listed' named' empty =>
      cases found.symm.trans found'
      obtain rfl := once found listed listed' named named'
      exact absurd empty filled
    | replaced found' listed' named' _ rest' =>
      cases found.symm.trans found'
      obtain rfl := once found listed listed' named named'
      obtain ⟨rfl, rfl⟩ := ih rest'
      exact ⟨rfl, rfl⟩

/-- A binder has bound a page: it has made these bindings. -/
structure BindsAll (w : World) (b : BinderId) (binder : Binder) (root : NodeId) (bs : List Binding)
    (w' : World) : Prop where
  plan : Plan w binder.data w.nodes.size (w.children root) bs w'.nodes.size
  /-- There is a watcher for each binding, in their order, which remembers the present value. -/
  subscribers : w'.subscribers.cells.toList = w.subscribers.cells.toList ++
    bs.map fun b => .watcher ⟨binder.data, b.key, w.peek binder.data b.key, b.reaction⟩
  /-- The binder gets the watchers in the same order; only the page and the lists change as well. -/
  rest : w' = { w with
    nodes := w'.nodes
    deps := w'.deps
    subscribers := w'.subscribers
    binders := w.binders.modify b.index fun _ => some { binder with
      watchers := binder.watchers ++ (List.range' w.subscribers.size bs.length).map (⟨·⟩) } }
  lists : w'.deps.size = w.deps.size
  /-- The list of a property gets an entry for each binding that shows the property. -/
  listed : w.Tracked binder.data key d →
    w'.entries d = w.entries d ++ Binding.enrolled key w.subscribers.size bs
  unlisted : (∀ key, ¬w.Tracked binder.data key d) → w'.entries d = w.entries d
  /-- Each binding shows its property, and a text that an element is given is bound like any other. -/
  shows : x ∈ bs → x.Shows (w.settled binder.data) w binder.data w'
  /-- Different elements are given different texts. -/
  own : x ∈ bs → y ∈ bs → x.role = .text → y.role = .text → g ∈ w'.children x.node →
    g ∈ w'.children y.node → x.node = y.node
  /-- No other part of any node changes. -/
  spares : Spares (fun p => ∃ x ∈ bs, x.Writes p) w w'
  /-- A page without bindings is left alone, and so is everything else. -/
  idle : bs = [] → w' = w

private theorem entrants_of_tracked (sound : w.Sound) (tracked : w.Tracked data key d) (first : Nat)
    (bs : List Binding) : w.entrants data d first bs = Binding.enrolled key first bs := by
  unfold entrants Binding.enrolled
  refine List.filterMap_congr fun b _ => ?_
  have same : (w.properties data).dep? b.1.key = some d ↔ b.1.key = key := by
    rw [← tracked_iff]
    constructor
    · rintro ⟨slot, found, listed⟩
      obtain ⟨slot', found', listed'⟩ := tracked
      exact (sound.apart found listed found' listed').2
    · rintro rfl
      exact tracked
  simp only [same]

private theorem modify_eq_self {α : Type} {x : α} (xs : Arena α) (present : xs.get? i = some x) :
    xs.modify i (fun _ => x) = xs := by
  refine Arena.ext_get? fun j => ?_
  rw [Arena.get?_modify]
  split
  · rename_i same
    rw [← same, present, Option.map_some]
  · rfl

/-- A request to bind a page whose nodes stand in one place each does what is planned. -/
theorem bindsAll_perform (sound : w.Sound) (free : w.target? = none)
    (held : w.binder? b = some binder) (spans : w.Spans (w.children root) ns) (nodup : ns.Nodup)
    (page : ∀ n ∈ ns, ∃ x, w.node? n = some x) : ∃ bs w',
      w.perform (.bind b root) = some (w', .done) ∧ w.BindsAll b binder root bs w' := by
  obtain ⟨bs, own, a, bound, plan, installs⟩ :=
    bind_installs binder.data sound free spans nodup page
  have issues := issues_bind bound
  have count : own.length = bs.length := by
    have := issues.size.symm.trans installs.enrolls.size
    omega
  have numbers : own = (List.range' w.subscribers.size bs.length).map (⟨·⟩) := by
    rw [← count, ← issues.ids, List.map_map]
    exact (List.map_id own).symm
  have holders := issues.custody
  simp only [custody, Prod.mk.injEq] at holders
  obtain ⟨sameHandles, sameTargets, sameBinders, sameBundles, sameViewModels⟩ := holders
  have objects := installs.enrolls.objects
  refine ⟨bs, { a with binders := w.binders.modify b.index fun _ => some { binder with
    watchers := binder.watchers ++ (List.range' w.subscribers.size bs.length).map (⟨·⟩) } }, ?_, ?_⟩
  · simp only [perform, held, bound, ← numbers, ← sameBinders]
    rfl
  · have spares := installs.draws.spares
    refine ⟨plan, installs.enrolls.subscribers, ?_, installs.enrolls.deps, fun {key d} tracked => ?_,
      fun {d} untracked => ?_, fun {x} member => ?_, installs.draws.own, ?_, ?_⟩
    · rw [← objects, ← sameHandles, ← sameTargets, ← sameBundles, ← sameViewModels]
    · rw [← entrants_of_tracked sound tracked]
      exact installs.enrolls.entries d
    · have none : w.entrants binder.data d w.subscribers.size bs = [] := by
        refine List.filterMap_eq_nil_iff.mpr fun x _ => if_neg fun listed => ?_
        exact untracked _ (tracked_iff.mpr listed)
      have entries := installs.enrolls.entries d
      rwa [none, List.append_nil] at entries
    · exact installs.draws.shows member
    · exact ⟨spares.kept, spares.added⟩
    · rintro rfl
      have same := installs.idle rfl
      subst same
      have present : a.binders.get? b.index = some (some binder) := Option.join_eq_some_iff.mp held
      simp only [List.length_nil, List.range'_zero, List.map_nil, List.append_nil]
      rw [modify_eq_self a.binders present]

end World

namespace Machine

variable {σ : Type}

/-- At any moment at which nobody collects, binding a page whose nodes stand in one place each comes
to its end, makes the bindings of its plan and does nothing else. -/
theorem pages_are_bound_as_planned {m : Machine σ} {ns : List NodeId} (reachable : m.Reachable)
    (held : m.world.binder? b = some binder) (free : m.world.target? = none)
    (spans : m.world.Spans (m.world.children root) ns) (nodup : ns.Nodup)
    (page : ∀ n ∈ ns, ∃ x, m.world.node? n = some x) : ∃ bs w',
      m.world.perform (.bind b root) = some (w', .done) ∧ m.world.BindsAll b binder root bs w' :=
  World.bindsAll_perform (reachable_sound reachable).world free held spans nodup page

/-- A text with an interpolation, an element with a `v-text` whose property looks like one, and an
element with two directives of which the second takes away what stands below it. -/
def decorating : Program Unit :=
  .call (.act (.newObject [("a", .string "\x7b\x7bb\x7d\x7d"), ("b", .bool true), ("c", .null)])) fun _ =>
  .call (.act (.observe (.object ⟨0⟩))) fun _ =>
  .call (.act (.newBinder ⟨0⟩)) fun _ =>
  .call (.act (.newElement "div")) fun _ =>
  .call (.act (.newText "<\x7b\x7b c \x7d\x7d>")) fun _ =>
  .call (.act (.appendChild ⟨0⟩ ⟨1⟩)) fun _ =>
  .call (.act (.newElement "p")) fun _ =>
  .call (.act (.setAttribute ⟨2⟩ "v-text" "a")) fun _ =>
  .call (.act (.newText "old")) fun _ =>
  .call (.act (.appendChild ⟨2⟩ ⟨3⟩)) fun _ =>
  .call (.act (.appendChild ⟨0⟩ ⟨2⟩)) fun _ =>
  .call (.act (.newElement "input")) fun _ =>
  .call (.act (.setAttribute ⟨4⟩ "v-model" "b")) fun _ =>
  .call (.act (.setAttribute ⟨4⟩ "v-text" "d")) fun _ =>
  .call (.act (.newText "\x7b\x7b a \x7d\x7d")) fun _ =>
  .call (.act (.appendChild ⟨4⟩ ⟨5⟩)) fun _ =>
  .call (.act (.appendChild ⟨0⟩ ⟨4⟩)) fun _ => .done

def decoratingMachine : Machine Unit := run 18 (start { host := () } decorating)

private theorem decorating_plan : World.Plan decoratingMachine.world ⟨0⟩ 6 [⟨1⟩, ⟨2⟩, ⟨4⟩]
    [⟨⟨1⟩, .label "<null>", "c"⟩, ⟨⟨2⟩, .text, "a"⟩, ⟨⟨6⟩, .label "true", "b"⟩, ⟨⟨4⟩, .control, "b"⟩,
      ⟨⟨4⟩, .text, "d"⟩] 7 := by
  have text : decoratingMachine.world.node? ⟨1⟩ = some (.text "<\x7b\x7b c \x7d\x7d>") := by
    decide +kernel
  have paragraph : decoratingMachine.world.node? ⟨2⟩ =
      some (.element { tag := "p", attributes := [⟨"v-text", "a"⟩], children := [⟨3⟩] }) := by
    decide +kernel
  have control : decoratingMachine.world.node? ⟨4⟩ = some (.element
      { tag := "input", attributes := [⟨"v-model", "b"⟩, ⟨"v-text", "d"⟩], children := [⟨5⟩] }) := by
    decide +kernel
  have none : World.Plan decoratingMachine.world ⟨0⟩ 7 [] [] 7 := .nil
  have last := World.Plan.emptied control (List.mem_cons_of_mem _ (List.mem_singleton_self _))
    (by decide) (by decide +kernel) none
  have plan := World.Plan.text text
    (.replaced paragraph (List.mem_singleton_self _) (by decide) (by decide +kernel) last)
  have first : decoratingMachine.world.labels ⟨0⟩ ⟨1⟩ "<\x7b\x7b c \x7d\x7d>" =
      [⟨⟨1⟩, .label "<null>", "c"⟩] := by decide +kernel
  have second : decoratingMachine.world.labels ⟨0⟩ ⟨6⟩
      (decoratingMachine.world.peek ⟨0⟩ "a").textContent = [⟨⟨6⟩, .label "true", "b"⟩] := by
    decide +kernel
  rw [first, second] at plan
  exact plan

/-- Each binding is made once, in document order; the new text of the paragraph is bound as it says. -/
theorem decorated_page_is_bound_as_planned : ∃ w',
    decoratingMachine.world.perform (.bind ⟨0⟩ ⟨0⟩) = some (w', .done) ∧
      decoratingMachine.world.BindsAll ⟨0⟩ ⟨⟨0⟩, []⟩ ⟨0⟩ [⟨⟨1⟩, .label "<null>", "c"⟩,
        ⟨⟨2⟩, .text, "a"⟩, ⟨⟨6⟩, .label "true", "b"⟩, ⟨⟨4⟩, .control, "b"⟩, ⟨⟨4⟩, .text, "d"⟩] w' := by
  have reachable : decoratingMachine.Reachable :=
    reachable_run 18 (reachable_start (reachable_initial ()) rfl () decorating)
  have below : decoratingMachine.world.children ⟨0⟩ = [⟨1⟩, ⟨2⟩, ⟨4⟩] := by decide +kernel
  have spans : decoratingMachine.world.Spans (decoratingMachine.world.children ⟨0⟩)
      [⟨1⟩, ⟨2⟩, ⟨3⟩, ⟨4⟩, ⟨5⟩] := by
    have text := World.Spans.leaf (show decoratingMachine.world.children ⟨1⟩ = [] by decide +kernel)
    have paragraph := World.Spans.only
      (show decoratingMachine.world.children ⟨2⟩ = [⟨3⟩] by decide +kernel) (.leaf (by decide +kernel))
    have control := World.Spans.only
      (show decoratingMachine.world.children ⟨4⟩ = [⟨5⟩] by decide +kernel) (.leaf (by decide +kernel))
    rw [below]
    exact text.append (paragraph.append control)
  have page : ∀ n ∈ [⟨1⟩, ⟨2⟩, ⟨3⟩, ⟨4⟩, ⟨5⟩], ∃ x, decoratingMachine.world.node? n = some x :=
    World.exists_of_isSome (by decide +kernel)
  have held : decoratingMachine.world.binder? ⟨0⟩ = some ⟨⟨0⟩, []⟩ := by decide +kernel
  obtain ⟨bs, w', performed, binds⟩ :=
    pages_are_bound_as_planned reachable held (by decide +kernel) spans (by decide) page
  have plan := binds.plan
  have nodes : decoratingMachine.world.nodes.size = 6 := by decide +kernel
  rw [below, nodes] at plan
  obtain ⟨rfl, -⟩ := plan.unique (reachable_sound reachable).world.tidy decorating_plan
  exact ⟨w', performed, binds⟩

end Machine
end DataBinding
