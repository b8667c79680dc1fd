import DataBinding.Proofs.Forest

/-! Binding a whole page adds all its bindings. The walk goes from the roots of the page down
to what stands below them; an element with a `v-text` has lost what stood below it by the
time the walk goes on, and there is only the new text left to bind. -/
namespace DataBinding.World

variable {data : ObjectId} {w : World}

private theorem children_onElement (w : World) (n x : NodeId) (f : Element → Element)
    (same : ∀ e, (f e).children = e.children) :
    (w.modifyNode n (·.onElement f)).children x = w.children x := by
  unfold children
  rw [node?_modifyNode]
  split
  · cases found : w.node? x with
    | none => rfl
    | some y => cases y <;> simp [Node.onElement, Node.children, same]
  · rfl

theorem children_of_nodes {a b : World} (same : a.nodes = b.nodes) (x : NodeId) :
    a.children x = b.children x := by
  simp only [children, node?, same]

private theorem children_model (w : World) (data : ObjectId) (n x : NodeId) (key : String) :
    (w.applyDirective data n key .model).1.children x = w.children x ∧
      (w.applyDirective data n key .model).1.nodes.size = w.nodes.size := by
  let read := (w.read data key).1
  let held := read.setControlValue n (w.read data key).2.formValue
  have watches := nodes_watch (held.listen n (.writeBack data key)) data key (.showValue n)
  have reads := nodes_read w data key
  constructor
  · calc (w.applyDirective data n key .model).1.children x
      _ = (held.listen n (.writeBack data key)).children x := children_of_nodes watches x
      _ = held.children x := children_onElement held n x _ fun _ => rfl
      _ = read.children x := children_onElement read n x _ fun _ => rfl
      _ = w.children x := children_of_nodes reads x
  · calc (w.applyDirective data n key .model).1.nodes.size
      _ = (held.listen n (.writeBack data key)).nodes.size := congrArg Arena.size watches
      _ = read.nodes.size := by simp [held, listen, setControlValue, modifyNode]
      _ = w.nodes.size := congrArg Arena.size reads

/-- Without a `v-text`, following directives adds no node and moves none. -/
theorem children_plain (w : World) (data : ObjectId) (n x : NodeId) (attributes : List Attribute)
    (plain : ∀ a ∈ attributes, Directive.ofAttribute? a.name ≠ some .text) :
    (w.bindAttributes data n attributes).1.children x = w.children x ∧
      (w.bindAttributes data n attributes).1.nodes.size = w.nodes.size := by
  induction attributes generalizing w with
  | nil => exact ⟨rfl, rfl⟩
  | cons a rest ih =>
    have later := fun w => ih w fun b listed => plain b (List.mem_cons_of_mem _ listed)
    cases named : Directive.ofAttribute? a.name with
    | none =>
      simp only [bindAttributes, named]
      exact later w
    | some d =>
      cases d with
      | text => exact absurd named (plain a List.mem_cons_self)
      | model =>
        obtain ⟨children, size⟩ := children_model w data n x a.value
        obtain ⟨children', size'⟩ := later (w.applyDirective data n a.value .model).1
        simp only [bindAttributes, named]
        exact ⟨children'.trans children, size'.trans size⟩

/-- A text that an element is given takes one node, if it is not empty. -/
private theorem size_setText (content : String) (found : w.node? n = some (.element e)) :
    (w.setText n content).nodes.size = w.nodes.size + if content = "" then 0 else 1 := by
  simp only [setText, found]
  split
  · simp [modifyNode]
  · simp [modifyNode, newNode]

private theorem alone_applyDirective (data : ObjectId) (key : String)
    (found : w.node? n = some (.element e)) :
    let w' := (w.applyDirective data n key .text).1
    let text := (w.peek data key).textContent
    w'.children n = (if text = "" then [] else [⟨w.nodes.size⟩]) ∧
      w'.ShowsAlone (if text = "" then [] else [⟨w.nodes.size⟩]) text ∧
      w'.nodes.size = w.nodes.size + if text = "" then 0 else 1 := by
  have reads := nodes_read w data key
  have found' : (w.read data key).1.node? n = some (.element e) := by
    rw [node?, reads]
    exact found
  have shown := node?_setText_element (w.peek data key).textContent found'
  have alone := showsAlone_setText found' (w.peek data key).textContent
  have size := size_setText (w.peek data key).textContent found'
  have watches := nodes_watch ((w.read data key).1.setText n (w.peek data key).textContent) data key
    (.showText n)
  simp only [applyDirective, read_value]
  rw [reads] at shown alone size
  refine ⟨?_, ?_, by rw [watches, size]⟩
  · rw [children_of_nodes watches, children_of_element shown]
  · apply alone.kept
    intro g _ y present
    rw [node?, watches]
    exact present

/-- With a `v-text`, what stands below the element is its text, in a node of its own. -/
theorem children_text (data : ObjectId) (found : w.node? n = some (.element e))
    (attributes : List Attribute)
    (names : (attributes.map (·.name)).Nodup) (listed : a ∈ attributes)
    (named : Directive.ofAttribute? a.name = some .text) :
    let w' := (w.bindAttributes data n attributes).1
    let text := (w.peek data a.value).textContent
    w'.children n = (if text = "" then [] else [⟨w.nodes.size⟩]) ∧
      w'.ShowsAlone (if text = "" then [] else [⟨w.nodes.size⟩]) text ∧
      w'.nodes.size = w.nodes.size + if text = "" then 0 else 1 := by
  induction attributes generalizing w e with
  | nil => cases listed
  | cons b rest ih =>
    obtain ⟨fresh, names⟩ := List.nodup_cons.mp names
    have once : ∀ c ∈ rest, ∀ d, Directive.ofAttribute? b.name = some d →
        Directive.ofAttribute? c.name ≠ some d := by
      intro c later d first second
      have same : c.name = b.name := eq_of_ofAttribute second first
      have again : c.name ∈ rest.map (·.name) := List.mem_map_of_mem later
      rw [same] at again
      exact fresh again
    rcases List.mem_cons.mp listed with rfl | later
    · obtain ⟨children, alone, size⟩ := alone_applyDirective data a.value found
      obtain ⟨still, adds⟩ := children_plain (w.applyDirective data n a.value .text).1 data n n rest
        fun c later => once c later .text named
      have touches := (touches_binding data n).bindAttributes
        (w.applyDirective data n a.value .text).1 rest
      simp only [bindAttributes, named]
      refine ⟨still.trans children, ?_, adds.trans size⟩
      refine alone.kept fun g shown y present => touches.other ?_ present
      rintro rfl
      split at shown
      · cases shown
      · obtain rfl := List.mem_singleton.mp shown
        simp [node?, Arena.get?, Arena.size] at found
    · cases kind : Directive.ofAttribute? b.name with
      | none =>
        simp only [bindAttributes, kind]
        exact ih found names later
      | some d =>
        cases d with
        | text => exact absurd named (once a later .text kind)
        | model =>
          obtain ⟨-, size⟩ := children_model w data n n b.value
          have objects : (w.applyDirective data n b.value .model).1.objects = w.objects := by
            simp only [applyDirective, objects_watch]
            exact objects_read w data b.value
          have minds : Minds data b.value n w _ (w.applyDirective data n b.value .model).1 :=
            minds_applyDirective w n b.value .model fun _ _ => rfl
          obtain ⟨e', found', -⟩ := minds.element found
          simp only [bindAttributes, kind]
          have rest := ih found' names later
          rw [size, peek_of_objects objects] at rest
          exact rest

/-- A text that is bound is still a text. -/
theorem text_bindNode (data : ObjectId) (found : w.node? n = some (.text content)) :
    ∃ content', (w.bindNode data n).1.node? n = some (.text content') := by
  simp only [bindNode, found, bindText]
  split
  · exact ⟨content, found⟩
  · rename_i f _
    have reads : (w.read data f.key).1.node? n = some (.text content) := by
      rw [node?, nodes_read]
      exact found
    have shown := node?_setText_text (f.substitute (w.read data f.key).2.display) reads
    refine ⟨f.substitute (w.read data f.key).2.display, ?_⟩
    rw [node?, nodes_watch]
    exact shown

theorem children_bindNode (data : ObjectId) (plain : w.Plain n) :
    (w.bindNode data n).1.children n = w.children n := by
  cases found : w.node? n with
  | none => simp only [bindNode, found]
  | some x =>
    cases x with
    | text content =>
      obtain ⟨content', after⟩ := text_bindNode data found
      simp [children, found, after, Node.children]
    | element e =>
      simp only [bindNode, found]
      exact (children_plain w data n n e.attributes (plain e found)).1

/-- Other nodes than the given ones stay the same, and those that are added are texts. -/
structure Stays (ns : List NodeId) (w w' : World) : Prop where
  kept : x ∉ ns → w.node? x = some y → w'.node? x = some y
  added : x ∉ ns → w.node? x = none → w'.node? x = some y → ∃ content, y = .text content
  lasts : w.node? x = some y → ∃ y', w'.node? x = some y'

namespace Stays

variable {ns ms : List NodeId}

theorem refl (ns : List NodeId) (w : World) : Stays ns w w where
  kept _ found := found
  added _ absent found := by
    rw [absent] at found
    cases found
  lasts found := ⟨_, found⟩

theorem mono {w' : World} (stays : Stays ns w w') (among : ∀ n ∈ ns, n ∈ ms) : Stays ms w w' where
  kept apart := stays.kept fun member => apart (among _ member)
  added apart := stays.added fun member => apart (among _ member)
  lasts := stays.lasts

theorem trans {a b c : World} (first : Stays ns a b) (second : Stays ns b c) : Stays ns a c where
  kept apart found := second.kept apart (first.kept apart found)
  added {x y} apart absent found := by
    cases between : b.node? x with
    | none => exact second.added apart between found
    | some z =>
      obtain ⟨content, rfl⟩ := first.added apart absent between
      have same := second.kept apart between
      exact ⟨content, Option.some.inj (found.symm.trans same)⟩
  lasts found := by
    obtain ⟨y, between⟩ := first.lasts found
    exact second.lasts between

theorem absent {w' : World} (stays : Stays ns w w') (absent : w'.node? x = none) : w.node? x = none := by
  cases before : w.node? x with
  | none => rfl
  | some y =>
    obtain ⟨y', after⟩ := stays.lasts before
    rw [absent] at after
    cases after

theorem children {w' : World} (stays : Stays ns w w') (apart : x ∉ ns) :
    w'.children x = w.children x := by
  cases before : w.node? x with
  | some y => simp [World.children, before, stays.kept apart before]
  | none =>
    cases after : w'.node? x with
    | none => simp [World.children, before, after]
    | some y =>
      obtain ⟨content, rfl⟩ := stays.added apart before after
      simp [World.children, before, after, Node.children]

end Stays

private theorem stays_bindNode (w : World) (data : ObjectId) (n : NodeId) :
    Stays [n] w (w.bindNode data n).1 := by
  have touches := touches_bindNode w data n
  have moves : Moves w (w.bindNode data n).1 := (moves_binding data n).bindNode w
  constructor
  · exact fun apart => touches.other (by simpa using apart)
  · exact fun apart => touches.added (by simpa using apart)
  · exact fun found => moves.lasts found

/-- The walk has still to come to the nodes: they are as they were when it began, and
nothing has been bound to them. -/
structure Open (base first : Nat) (data : ObjectId) (a w : World) (marks : List Mark)
    (ns : List NodeId) : Prop where
  ready : Ready base first data w marks
  objects : w.objects = a.objects
  page : n ∈ ns → ∃ x, a.node? n = some x ∧ w.node? n = some x
  unshown : n ∈ ns → Unshown w marks n
  unmarked : n ∈ ns → k ∈ marks → k.node ≠ n

/-- Part of the walk has bound the nodes, and the texts that it added. -/
structure Covers (base first : Nat) (data : ObjectId) (w : World) (marks : List Mark)
    (ns : List NodeId) (own : List SubscriberId) (w' : World) (new : List Mark)
    (bound : NodeId → Role → String → Prop) : Prop where
  adds : Adds base first data w marks own w' new bound
  stays : Stays ns w w'
  places : k ∈ new → k.node ∈ ns ∨ w.node? k.node = none

variable {base first : Nat} {a : World} {marks : List Mark} {ns ms : List NodeId}
  {bound bound' : NodeId → Role → String → Prop}

namespace Covers

theorem of_iff {w' : World} (covers : Covers base first data w marks ns own w' new bound)
    (same : ∀ n role key, bound n role key ↔ bound' n role key) :
    Covers base first data w marks ns own w' new bound' :=
  ⟨covers.adds.of_iff same, covers.stays, covers.places⟩

theorem mono {w' : World} (covers : Covers base first data w marks ns own w' new bound)
    (among : ∀ n ∈ ns, n ∈ ms) : Covers base first data w marks ms own w' new bound :=
  ⟨covers.adds, covers.stays.mono among, fun member => (covers.places member).imp_left (among _)⟩

theorem append {b c : World} (one : Covers base first data w marks ns xs b new bound)
    (two : Covers base first data b (marks ++ new) ms ys c more bound') :
    Covers base first data w marks (ns ++ ms) (xs ++ ys) c (new ++ more)
      fun n role key => bound n role key ∨ bound' n role key where
  adds := one.adds.append two.adds
  stays := by
    have first : Stays (ns ++ ms) w b := one.stays.mono fun _ => List.mem_append_left ms
    exact first.trans (two.stays.mono fun _ => List.mem_append_right ns)
  places {k} member := by
    rcases List.mem_append.mp member with early | late
    · exact (one.places early).imp_left (List.mem_append_left ms)
    · rcases two.places late with among | absent
      · exact .inl (List.mem_append_right ns among)
      · exact .inr (one.stays.absent absent)

/-- A text that was added belongs to no page of before. -/
theorem fresh {w' : World} (covers : Covers base first data w marks (ns ++ [g]) own w' new bound)
    (absent : w.node? g = none) (text : w'.node? g = some (.text content)) :
    Covers base first data w marks ns own w' new bound where
  adds := covers.adds
  stays := by
    refine ⟨fun {x y} apart found => covers.stays.kept ?_ found, fun {x y} apart none found => ?_,
      covers.stays.lasts⟩
    · intro among
      rcases List.mem_append.mp among with old | new
      · exact apart old
      · rw [List.mem_singleton.mp new, absent] at found
        cases found
    · by_cases here : x = g
      · rw [here, text] at found
        exact ⟨content, (Option.some.inj found).symm⟩
      · exact covers.stays.added (by simp [apart, here]) none found
  places {k} member := by
    rcases covers.places member with among | none
    · rcases List.mem_append.mp among with old | new
      · exact .inl old
      · exact .inr (List.mem_singleton.mp new ▸ absent)
    · exact .inr none

end Covers

/-- What has been walked does not concern the rest of the page. -/
theorem Open.after {w' : World} (begun : Open base first data a w marks (ns ++ ms))
    (covers : Covers base first data w marks ns own w' new bound) (apart : ∀ n ∈ ms, n ∉ ns) :
    Open base first data a w' (marks ++ new) ms where
  ready := covers.adds.ready
  objects := covers.adds.objects.trans begun.objects
  page {n} member := by
    obtain ⟨x, before, now⟩ := begun.page (List.mem_append_right ns member)
    exact ⟨x, before, covers.stays.kept (apart n member) now⟩
  unshown {n} member := by
    have old : Unshown w' marks n := by
      intro k among role changed
      obtain ⟨away, outside⟩ := begun.unshown (List.mem_append_right ns member) k among role changed
      refine ⟨away, ?_⟩
      rw [covers.stays.children]
      · exact outside
      · exact fun visited => begun.unmarked (List.mem_append_left ms visited) among rfl
    exact old.append fun k late => (covers.adds.fresh late).2.1
  unmarked {n k} member among same := by
    rcases List.mem_append.mp among with old | late
    · exact begun.unmarked (List.mem_append_right ns member) old same
    · rcases covers.places late with visited | absent
      · exact apart n member (same ▸ visited)
      · obtain ⟨x, -, now⟩ := begun.page (List.mem_append_right ns member)
        rw [same, now] at absent
        cases absent

/-- A template is read off the node and the values of the data. -/
theorem template_congr (node : w.node? n = a.node? n)
    (values : ∀ key, w.peek data key = a.peek data key) :
    w.Template data n role key ↔ a.Template data n role key := by
  constructor
  · intro template
    cases template with
    | label found interpolates =>
      rw [values]
      exact .label (node ▸ found) interpolates
    | directive found listed named => exact .directive (node ▸ found) listed named
  · intro template
    cases template with
    | label found interpolates =>
      rw [← values]
      exact .label (node ▸ found) interpolates
    | directive found listed named => exact .directive (node ▸ found) listed named

/-- An element has at most one `v-text`. -/
private theorem template_text (tidy : (Node.element e).Tidy) (found : w.node? n = some (.element e))
    (listed : b ∈ e.attributes) (named : Directive.ofAttribute? b.name = some .text) :
    w.Template data n .text key ↔ key = b.value := by
  rw [template_of_element found]
  constructor
  · rintro ⟨c, listed', d, named', role, rfl⟩
    cases d with
    | model => cases role
    | text =>
      have same : c.name = b.name := eq_of_ofAttribute named' named
      rw [List.inj_on_of_nodup_map tidy listed' listed same]
  · rintro rfl
    exact ⟨b, listed, .text, named, rfl, rfl⟩

private theorem plain_of_template (plain : a.Plain m) : ¬a.Template data m .text key := by
  intro template
  cases found : a.node? m with
  | none =>
    generalize Role.text = role at template
    cases template with
    | label present => rw [found] at present; cases present
    | directive present => rw [found] at present; cases present
  | some x =>
    cases x with
    | text content =>
      obtain ⟨f, -, role, -⟩ := (template_of_text found).mp template
      cases role
    | element e =>
      obtain ⟨c, listed, d, named, role, -⟩ := (template_of_element found).mp template
      cases d with
      | model => cases role
      | text => exact plain e found c listed named

private theorem covers_node (begun : Open base first data a w marks [m]) :
    ∃ new, Covers base first data w marks [m] (w.bindNode data m).2 (w.bindNode data m).1 new
      fun n role key => n = m ∧ a.Template data n role key := by
  have member : m ∈ [m] := List.mem_singleton_self m
  obtain ⟨x, before, now⟩ := begun.page member
  obtain ⟨new, adds⟩ := adds_bindNode begun.ready now (begun.unshown member)
    fun k among => begun.unmarked member among
  refine ⟨new, adds.of_iff fun n role key => and_congr_right fun here => ?_,
    stays_bindNode w data m, fun {k} late => ?_⟩
  · rw [here]
    exact template_congr (now.trans before.symm) (peek_of_objects begun.objects data)
  · have here := (adds.bound.mp ⟨k, late, rfl, rfl, rfl⟩).1
    exact .inl (List.mem_singleton.mpr here)

/-- The walk can go on to a text that binding an element has just added. -/
private theorem Open.generated {w' : World} (begun : Open base first data a w marks [m])
    (covers : Covers base first data w marks [m] own w' new bound)
    (here : ∀ k ∈ new, k.node = m) (absent : w.node? g = none)
    (text : w'.node? g = some (.text content)) :
    Open base first data w' w' (marks ++ new) [g] := by
  have marked : ∀ k ∈ marks, k.node ≠ g := by
    rintro k among rfl
    obtain ⟨x, found, -⟩ := begun.ready.ordered.linked.fits among
    rw [absent] at found
    cases found
  refine ⟨covers.adds.ready, rfl, fun member => ?_, fun member => ?_, fun {n k} member among => ?_⟩
  · rw [List.mem_singleton.mp member]
    exact ⟨_, text, text⟩
  · rw [List.mem_singleton.mp member]
    have old : Unshown w' marks g := by
      intro k among role changed
      refine ⟨marked k among, fun below => ?_⟩
      have apart : k.node ∉ [m] := fun there =>
        begun.unmarked (List.mem_singleton_self m) among (List.mem_singleton.mp there)
      rw [covers.stays.children apart] at below
      obtain ⟨content', found⟩ := text_of_shown (begun.ready.ordered.order among).shows role changed below
      rw [absent] at found
      cases found
    exact old.append fun k late => (covers.adds.fresh late).2.1
  · rw [List.mem_singleton.mp member]
    rcases List.mem_append.mp among with old | late
    · exact marked k old
    · obtain ⟨x, -, now⟩ := begun.page (List.mem_singleton_self m)
      intro same
      rw [← same, here k late, now] at absent
      cases absent

/-- The walk over an element with a `v-text`: what stood below it is passed over. -/
private theorem covers_replaced (begun : Open base first data a w marks [m])
    (found : a.node? m = some (.element e)) (listed : b ∈ e.attributes)
    (named : Directive.ofAttribute? b.name = some .text) (depth : Nat) (ws : List SubscriberId) :
    ∃ own w' new, bindChild data (depth + 1) (w, ws) m = some (w', ws ++ own) ∧
      Covers base first data w marks [m] own w' new fun n role key =>
        n = m ∧ a.Template data n role key ∨ Generates a w' data m n role key := by
  obtain ⟨x, before, now⟩ := begun.page (List.mem_singleton_self m)
  obtain rfl := Option.some.inj (before.symm.trans found)
  have tidy := begun.ready.sound.tidy now
  have value := peek_of_objects begun.objects data b.value
  obtain ⟨new, covers⟩ := covers_node begun
  have here : ∀ k ∈ new, k.node = m := fun k late => (covers.adds.bound.mp ⟨k, late, rfl, rfl, rfl⟩).1
  have generates : ∀ w' n role key, Generates a w' data m n role key ↔ n ∈ w'.children m ∧ ∃ f,
      Text.Interpolation.find? (a.peek data b.value).textContent = some f ∧
        role = .label (f.substitute (a.peek data f.key).display) ∧ key = f.key := by
    intro w' n role key
    simp only [Generates, template_text tidy found listed named]
    constructor
    · rintro ⟨held, f, rfl, child, interpolates, made⟩
      exact ⟨child, f, interpolates, made⟩
    · rintro ⟨child, f, interpolates, made⟩
      exact ⟨_, f, rfl, child, interpolates, made⟩
  have same : w.bindNode data m = w.bindAttributes data m e.attributes := by simp only [bindNode, now]
  obtain ⟨only, alone, -⟩ := children_text data now e.attributes tidy listed named
  rw [← only] at alone
  have added : ∀ g ∈ (w.bindAttributes data m e.attributes).1.children m, w.nodes.size ≤ g.index := by
    rw [only]
    split <;> simp
  rw [← same, value] at alone
  rw [← same] at added
  unfold ShowsAlone at alone
  split at alone
  · -- The text is empty, so nothing stands below the element any more.
    refine ⟨_, _, new, by simp [bindChild, alone], covers.of_iff fun n role key => ?_⟩
    rw [generates, alone]
    simp
  · obtain ⟨g, only, text⟩ := alone
    have absent : w.node? g = none :=
      Array.getElem?_eq_none (added g (only ▸ List.mem_singleton_self g))
    obtain ⟨more, covers'⟩ := covers_node (begun.generated covers here absent text)
    obtain ⟨content, text'⟩ := text_bindNode data text
    have bare : ((w.bindNode data m).1.bindNode data g).1.children g = [] := by
      simp [children, text', Node.children]
    have walked : bindChild data (depth + 1) (w, ws) m =
        some (((w.bindNode data m).1.bindNode data g).1,
          ws ++ ((w.bindNode data m).2 ++ ((w.bindNode data m).1.bindNode data g).2)) := by
      simp [bindChild, only, bindWithin_succ, bare]
    refine ⟨_, _, _, walked, ((covers.append covers').fresh absent text').of_iff fun n role key => ?_⟩
    have outside : m ∉ [g] := by
      intro there
      rw [← List.mem_singleton.mp there, now] at absent
      cases absent
    have peeked := peek_of_objects (covers.adds.objects.trans begun.objects) data
    rw [generates, covers'.stays.children outside, only]
    apply or_congr Iff.rfl
    simp only [List.mem_singleton]
    apply and_congr_right
    intro there
    rw [there, template_of_text text]
    simp only [peeked]

theorem Open.among (begun : Open base first data a w marks ns) (among : ∀ n ∈ ms, n ∈ ns) :
    Open base first data a w marks ms where
  ready := begun.ready
  objects := begun.objects
  page member := begun.page (among _ member)
  unshown member := begun.unshown (among _ member)
  unmarked member := begun.unmarked (among _ member)

theorem bindChild_succ (data : ObjectId) (depth : Nat) (state : World × List SubscriberId)
    (n : NodeId) : bindChild data (depth + 1) state n =
      let bound := state.1.bindNode data n
      ((bound.1.children n).foldlM (bindChild data depth) (bound.1, [])).map fun below =>
        (below.1, state.2 ++ bound.2 ++ below.2) := by
  rw [bindChild]
  by_cases empty : ((state.1.bindNode data n).1.children n).isEmpty = true
  · have none : (state.1.bindNode data n).1.children n = [] := List.isEmpty_iff.mp empty
    simp [none]
  · simp only [empty, bindWithin_succ]
    rfl

/-- The walk over one root and what stands below it. -/
private theorem covers_child (begun : Open base first data a w marks (m :: ns))
    (apart : m ∉ ns) (depth : Nat) (ws : List SubscriberId)
    (below : ∀ {w marks}, Open base first data a w marks ns → ∃ own w' new,
      (a.children m).foldlM (bindChild data depth) (w, []) = some (w', own) ∧
        Covers base first data w marks ns own w' new (a.Bound w' data (a.children m))) :
    ∃ own w' new, bindChild data (depth + 1) (w, ws) m = some (w', ws ++ own) ∧
      Covers base first data w marks (m :: ns) own w' new fun n role key =>
        n = m ∧ a.Template data n role key ∨ a.Plain m ∧ Bound a w' data (a.children m) n role key ∨
          Generates a w' data m n role key := by
  have here : Open base first data a w marks [m] := begun.among (by simp)
  by_cases plain : a.Plain m
  · obtain ⟨x, before, now⟩ := here.page (List.mem_singleton_self m)
    obtain ⟨new, covers⟩ := covers_node here
    have plain' : w.Plain m := by
      unfold Plain at plain ⊢
      rw [now, ← before]
      exact plain
    have same : (w.bindNode data m).1.children m = a.children m := by
      rw [children_bindNode data plain', children, now, children, before]
    have next : Open base first data a (w.bindNode data m).1 (marks ++ new) ns :=
      Open.after (show Open base first data a w marks ([m] ++ ns) from begun) covers
        fun n member => by
          simp only [List.mem_singleton]
          rintro rfl
          exact apart member
    obtain ⟨own, w', more, walked, covers'⟩ := below next
    refine ⟨_, w', _, ?_, (covers.append covers').of_iff fun n role key => or_congr Iff.rfl ?_⟩
    · rw [bindChild_succ]
      simp only [same, walked, Option.map_some, List.append_assoc]
    · constructor
      · exact fun bound => .inl ⟨plain, bound⟩
      · rintro (⟨-, bound⟩ | ⟨held, f, template, -⟩)
        · exact bound
        · exact absurd template (plain_of_template plain)
  · have replaced := plain
    simp only [Plain, not_forall, not_not] at replaced
    obtain ⟨e, found, b, listed, named⟩ := replaced
    obtain ⟨own, w', new, walked, covers⟩ := covers_replaced here found listed named depth ws
    refine ⟨own, w', new, walked, (covers.mono (by simp)).of_iff fun n role key => ?_⟩
    refine or_congr Iff.rfl ⟨.inr, fun either => either.resolve_left fun bound => plain bound.1⟩

/-- A walk over a forest binds it all, if it may go as deep as the forest has nodes. -/
theorem covers_forest (spans : Spans a roots ns) (nodup : ns.Nodup)
    (begun : Open base first data a w marks ns) (depth : Nat) (enough : ns.length ≤ depth)
    (ws : List SubscriberId) : ∃ own w' new,
      roots.foldlM (bindChild data depth) (w, ws) = some (w', ws ++ own) ∧
        Covers base first data w marks ns own w' new (a.Bound w' data roots) := by
  induction spans generalizing w marks depth ws with
  | nil =>
    refine ⟨[], w, [], by simp, (Adds.nil begun.ready).of_iff fun n role key => ?_, .refl [] w, ?_⟩
    · simp only [false_iff, bound_iff]
      rintro (⟨reaches, -⟩ | ⟨m, reaches, -⟩) <;> cases reaches.mem .nil
    · exact fun member => absurd member List.not_mem_nil
  | @cons m ns roots ms below rest ihBelow ihRest =>
    obtain ⟨early, later, between⟩ := List.nodup_append.mp nodup
    obtain ⟨apart, once⟩ := List.nodup_cons.mp early
    have away : ∀ n ∈ ms, n ∉ m :: ns := fun n after before => between n before n after rfl
    simp only [List.length_append, List.length_cons] at enough
    obtain ⟨depth, rfl⟩ : ∃ d, depth = d + 1 := ⟨depth - 1, by omega⟩
    have begun' : Open base first data a w marks (m :: ns) :=
      begun.among fun n member => List.mem_append_left ms member
    obtain ⟨own, w₁, new, walked, covers⟩ := covers_child begun' apart depth ws fun next => by
      simpa using ihBelow once next depth (by omega) []
    obtain ⟨more, w₂, new', walked', covers'⟩ :=
      ihRest later (begun.after covers away) (depth + 1) (by omega) (ws ++ own)
    have same : ∀ n ∈ m :: ns, w₂.children n = w₁.children n := fun n member =>
      covers'.stays.children fun after => away n after member
    refine ⟨own ++ more, w₂, new ++ new', ?_, (covers.append covers').of_iff fun n role key => ?_⟩
    · rw [List.foldlM_cons, walked]
      simpa [List.append_assoc] using walked'
    · have deeper : Bound a w₁ data (a.children m) n role key ↔ Bound a w₂ data (a.children m) n role key :=
        bound_congr below fun k member => (same k (List.mem_cons_of_mem m member)).symm
      have made : Generates a w₁ data m n role key ↔ Generates a w₂ data m n role key := by
        rw [Generates, Generates, same m List.mem_cons_self]
      rw [bound_cons, deeper, made]

end DataBinding.World
